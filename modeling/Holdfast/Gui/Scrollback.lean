/-
  Holdfast.Gui.Scrollback — the history lines a tab shows above its screen
  (`fetchOlderHistory` of `web/src/client/app.ts` and `desktop/src/main.ts`, with the
  daemon's ring behind it).

  An attach answers with a snapshot of the screen and the id of the newest line that had
  scrolled off it. The tab then asks for pages of older lines: first for the newest page
  there is, later for the lines before the oldest it has. The ring goes on growing, and a
  page is taken from it when the request is served, not when the attach was.

  The clients differ in what they do about a page of an earlier attachment. The desktop
  throws it away; in the web client it also keeps the new attachment from asking for a
  page of its own, and it is shown above the new screen.

  Proved:
  - `inv_step`: what one step keeps, while the newest page is served before another line
    scrolls off (`ringUnmoved`).
  - `history_below_screen`: then the lines shown are consecutive ones, none of them newer
    than what the attach reported.
-/

import Holdfast.Base.Machine
import Holdfast.Terminal.Pages

namespace Holdfast.Gui

open Holdfast.Base Holdfast.Terminal

inductive Frontend where
  | web
  | desktop
  deriving DecidableEq, Repr

def historyPageLines : Nat := 200
def historyPageBytes : Nat := 128 * 1024
def historyRenderLineCap : Nat := 5000
def historyRenderByteCap : Nat := 2 * 1024 * 1024

/-! ## Pages in the tab -/

/-- The loop of `prependBoundedHistory`, over the incoming lines newest first: what is
    accepted, newest first, and the bytes then. -/
def acceptLines : List Text → Nat → Nat → List Text × Nat
  | [], _, bytes => ([], bytes)
  | _, 0, bytes => ([], bytes)
  | line :: older, remaining + 1, bytes =>
    -- a line is shown with a CRLF
    if bytes + (line.len + 2) > historyRenderByteCap then ([], bytes)
    else
      let r := acceptLines older remaining (bytes + (line.len + 2))
      (line :: r.1, r.2)

structure BoundedHistory where
  lines : List Text
  bytes : Nat
  acceptedAll : Bool
  deriving DecidableEq, Repr

def prependBoundedHistory (existing : List Text) (existingBytes : Nat) (incoming : List Text) : BoundedHistory :=
  let r := acceptLines incoming.reverse (historyRenderLineCap - existing.length) existingBytes
  ⟨r.1.reverse ++ existing, r.2, decide (r.1.length = incoming.length)⟩

/-- A `RequestHistory` and what came of it. -/
structure Fetch where
  generation : Nat
  beforeLineId : Nat
  /-- The page, or an error. -/
  answer : Option (Option HistoryRange)
  deriving DecidableEq, Repr

structure Tab where
  live : Bool
  attachmentGeneration : Nat
  historyLines : List Text
  historyBytes : Nat
  oldestFetched : Nat
  oldestAvailable : Nat
  historyExhausted : Bool
  fetchingHistory : Bool
  /-- `newest_history_line_id` of the attach whose snapshot the tab holds. -/
  newest : Nat
  deriving DecidableEq, Repr

structure Scrollback where
  ring : HistoryRing
  /-- Every line that ever scrolled off, oldest first. -/
  log : List Text
  tab : Tab
  /-- The attach in flight, and its oldest and newest id once it is served. -/
  attach : Option (Option (Nat × Nat))
  fetches : List Fetch
  deriving DecidableEq, Repr

inductive ScrollInput where
  /-- Output scrolls lines off the screen. -/
  | output (lines : List Text)
  | attach
  | serveAttach
  | attached
  | attachFails (live : Bool)
  /-- The user scrolls to the top. -/
  | scroll
  /-- The daemon takes the request; half a frame is all that a page may fill. -/
  | serve (i frameBytes : Nat)
  /-- The request is refused, or answered with no page. -/
  | refuse (i : Nat)
  | answerEmpty (i : Nat)
  | receive (i : Nat)
  /-- No answer will come. -/
  | lose (i : Nat)
  | detach
  | disconnect
  deriving DecidableEq, Repr

namespace Tab

def new : Tab := ⟨false, 0, [], 0, 0, 1, false, false, 0⟩

/-- `resetForAttach`, of the desktop. -/
def resetForAttach (t : Tab) : Tab :=
  { t with
    attachmentGeneration := t.attachmentGeneration + 1
    historyLines := [], historyBytes := 0, oldestFetched := 0, oldestAvailable := 1
    historyExhausted := false, fetchingHistory := false, newest := 0 }

def attached (gui : Frontend) (t : Tab) (oldest newest : Nat) : Tab :=
  let t := match gui with
    | .web => { t with historyLines := [], historyBytes := 0, oldestFetched := 0 }
    | .desktop => t
  { t with oldestAvailable := oldest, historyExhausted := newest == 0, live := true, newest := newest }

/-- `prependHistory`. -/
def prependHistory (gui : Frontend) (t : Tab) (lines : List Text) : Tab :=
  match gui with
  | .web => { t with historyLines := lines ++ t.historyLines }
  | .desktop =>
    let bounded := prependBoundedHistory t.historyLines t.historyBytes lines
    { t with
      historyLines := bounded.lines, historyBytes := bounded.bytes
      historyExhausted := t.historyExhausted || !bounded.acceptedAll }

def showPage (gui : Frontend) (t : Tab) (page : HistoryRange) : Tab :=
  if page.lines = [] then { t with historyExhausted := true }
  else
    let t := t.prependHistory gui page.lines
    { t with
      oldestFetched := page.firstLineId
      historyExhausted := t.historyExhausted || page.truncatedByEviction || decide (page.firstLineId ≤ t.oldestAvailable) }

/-- The tab still waits for this page. The web client does not check. -/
def awaits (gui : Frontend) (t : Tab) (f : Fetch) : Bool := gui == .web || f.generation == t.attachmentGeneration

/-- The rest of `fetchOlderHistory`. -/
def received (gui : Frontend) (t : Tab) (f : Fetch) (a : Option HistoryRange) : Tab :=
  if t.awaits gui f = false then t
  else
    match a with
    | none => { t with fetchingHistory := false }
    | some page =>
      -- the desktop's tab may have been detached meanwhile
      if gui = .desktop ∧ t.live = false then { t with fetchingHistory := false }
      else { t.showPage gui page with fetchingHistory := false }

end Tab

namespace Scrollback

variable (gui : Frontend)

def start (maxLines maxBytes : Nat) : Scrollback := ⟨.new maxLines maxBytes, [], .new, none, []⟩

/-- The head of `fetchOlderHistory`, up to the request. -/
def fetchOlderHistory (w : Scrollback) (initial : Bool) : Scrollback :=
  if w.tab.fetchingHistory || w.tab.historyExhausted || !w.tab.live || !initial && w.tab.oldestFetched == 0 then w
  else
    { w with
      tab := { w.tab with fetchingHistory := true }
      fetches := w.fetches ++ [⟨w.tab.attachmentGeneration, w.tab.oldestFetched, none⟩] }

def beginAttach (w : Scrollback) : Scrollback :=
  if w.attach.isSome then w
  else
    match gui with
    | .web => { w with attach := some none }
    | .desktop => { w with attach := some none, tab := w.tab.resetForAttach }

def attached (w : Scrollback) : Scrollback :=
  match w.attach with
  | some (some (oldest, newest)) => { w with attach := none, tab := w.tab.attached gui oldest newest }.fetchOlderHistory true
  | _ => w

def answer (w : Scrollback) (i : Nat) (a : Option HistoryRange) : Scrollback :=
  match w.fetches[i]? with
  | some f => if f.answer.isNone then { w with fetches := w.fetches.set i { f with answer := some a } } else w
  | none => w

def receive (w : Scrollback) (i : Nat) : Scrollback :=
  match w.fetches[i]? with
  | some f =>
    match f.answer with
    | some a => { w with fetches := w.fetches.eraseIdx i, tab := w.tab.received gui f a }
    | none => w
  | none => w

/-- The desktop's call fails; a promise of the web client is never settled. -/
def lose (w : Scrollback) (i : Nat) : Scrollback :=
  match w.fetches[i]? with
  | some f =>
    let tab := match gui with
      | .web => w.tab
      | .desktop => if f.generation = w.tab.attachmentGeneration then { w.tab with fetchingHistory := false } else w.tab
    { w with fetches := w.fetches.eraseIdx i, tab := tab }
  | none => w

def disconnect (w : Scrollback) : Scrollback :=
  { w with
    tab := { w.tab with live := false }
    attach := none
    -- `pending.clear()` of the web client
    fetches := if gui = .web then [] else w.fetches }

def step (w : Scrollback) : ScrollInput → Scrollback × Unit
  | .output lines => ({ w with ring := w.ring.pushAll lines, log := w.log ++ lines }, ())
  | .attach => (w.beginAttach gui, ())
  | .serveAttach =>
    (if w.attach = some none then { w with attach := some (some (w.ring.oldestId, w.ring.newestId)) } else w, ())
  | .attached => (w.attached gui, ())
  | .attachFails live => ({ w with attach := none, tab := { w.tab with live := w.tab.live && live } }, ())
  | .scroll => (w.fetchOlderHistory false, ())
  | .serve i frameBytes =>
    (match w.fetches[i]? with
      | some f => w.answer i (some (w.ring.range f.beforeLineId historyPageLines (min historyPageBytes (frameBytes / 2))))
      | none => w, ())
  | .refuse i => (w.answer i none, ())
  | .answerEmpty i => (w.answer i (some ⟨0, [], false⟩), ())
  | .receive i => (w.receive gui i, ())
  | .lose i => (w.lose gui i, ())
  | .detach => ({ w with tab := { w.tab with live := false } }, ())
  | .disconnect => (w.disconnect gui, ())

def machine : Machine Scrollback ScrollInput Unit := ⟨fun w i => w.step gui i⟩

/-- Where a request for the newest page is served, nothing scrolled off since the attach that
    the tab shows. -/
def ringUnmoved (w : Scrollback) : ScrollInput → Bool
  | .serve i _ => w.fetches[i]?.all fun f => !w.tab.awaits gui f || f.beforeLineId != 0 || w.ring.newestId == w.tab.newest
  | _ => true

/-- The lines shown are consecutive ones, up to a line the attach knew of. -/
def BelowScreen (w : Scrollback) : Prop :=
  ∃ s e, w.tab.historyLines = (w.log.take e).drop s ∧ e ≤ w.log.length ∧ e ≤ w.tab.newest

/-! ## Runs of lines -/

section

variable {log : List Text} {s m e : Nat}

theorem run_append (hs : s ≤ m) (he : m ≤ e) :
    (log.take m).drop s ++ (log.take e).drop m = (log.take e).drop s := by
  have hleft : (log.take m).drop s = ((log.take e).drop s).take (m - s) := by
    rw [List.take_drop, List.take_take, Nat.add_sub_cancel' hs, Nat.min_eq_left he]
  have hright : (log.take e).drop m = ((log.take e).drop s).drop (m - s) := by
    rw [List.drop_drop, Nat.add_sub_cancel' hs]
  rw [hleft, hright, List.take_append_drop]

theorem run_grow (more : List Text) (he : e ≤ log.length) : ((log ++ more).take e).drop s = (log.take e).drop s := by
  rw [List.take_append_of_le_length he]

end

theorem acceptLines_prefix (lines : List Text) : ∀ remaining bytes, (acceptLines lines remaining bytes).1 <+: lines := by
  induction lines with
  | nil => exact fun _ _ => List.prefix_rfl
  | cons line older ih =>
    intro remaining bytes
    cases remaining with
    | zero => exact List.nil_prefix
    | succ remaining =>
      unfold acceptLines
      split
      · exact List.nil_prefix
      · exact (List.prefix_cons_inj line).mpr (ih _ _)

/-- The accepted lines are the newest of the page. -/
theorem prependBoundedHistory_lines (existing : List Text) (existingBytes : Nat) (incoming : List Text) :
    ∃ j ≤ incoming.length, (prependBoundedHistory existing existingBytes incoming).lines = incoming.drop j ++ existing ∧
      ((prependBoundedHistory existing existingBytes incoming).acceptedAll = true → j = 0) := by
  have hp := acceptLines_prefix incoming.reverse (historyRenderLineCap - existing.length) existingBytes
  unfold prependBoundedHistory
  generalize acceptLines incoming.reverse (historyRenderLineCap - existing.length) existingBytes = r at hp
  refine ⟨incoming.length - r.1.length, Nat.sub_le _ _, ?_, ?_⟩
  · have hsuffix : r.1.reverse <:+ incoming := by
      have := List.reverse_suffix.mpr hp
      rwa [List.reverse_reverse] at this
    have heq := List.suffix_iff_eq_drop.mp hsuffix
    rw [List.length_reverse] at heq
    simp only
    rw [← heq]
  · intro hall
    have : r.1.length = incoming.length := of_decide_eq_true hall
    omega

/-- What either client shows of a page, and that it asks for no more after leaving a line
    of it out. -/
theorem prependHistory_lines (gui : Frontend) (t : Tab) (lines : List Text) :
    ∃ j ≤ lines.length, (t.prependHistory gui lines).historyLines = lines.drop j ++ t.historyLines ∧
      ((t.prependHistory gui lines).historyExhausted = false → j = 0) := by
  cases gui with
  | web => exact ⟨0, Nat.zero_le _, rfl, fun _ => rfl⟩
  | desktop =>
    obtain ⟨j, hj, hlines, hall⟩ := prependBoundedHistory_lines t.historyLines t.historyBytes lines
    refine ⟨j, hj, hlines, ?_⟩
    intro hex
    simp only [Tab.prependHistory, Bool.or_eq_false_iff, Bool.not_eq_false'] at hex
    exact hall hex.2

/-! ## The invariant -/

/-- A request that the tab waits for fits what the tab has. -/
structure Fits (log : List Text) (t : Tab) (f : Fetch) : Prop where
  before : f.beforeLineId ≤ t.newest
  next : t.historyLines ≠ [] → f.beforeLineId = t.oldestFetched ∧ t.historyExhausted = false
  page : ∀ page, f.answer = some (some page) → page.lines ≠ [] → ∃ s e, s < e ∧ e ≤ log.length ∧
    page.firstLineId = s + 1 ∧ page.lines = (log.take e).drop s ∧
    if f.beforeLineId = 0 then e ≤ t.newest else e + 1 = f.beforeLineId

/-- What the tab shows, with the id of the first line as long as it goes on. -/
def Shows (log : List Text) (t : Tab) : Prop :=
  ∃ s e, t.historyLines = (log.take e).drop s ∧ s ≤ e ∧ e ≤ t.newest ∧
    (t.historyLines ≠ [] → t.historyExhausted = false → t.oldestFetched = s + 1)

structure Inv (w : Scrollback) : Prop where
  ring : w.ring.Retains w.log
  newest : w.tab.newest ≤ w.log.length
  attach : ∀ oldest newest, w.attach = some (some (oldest, newest)) → w.tab.newest ≤ newest ∧ newest ≤ w.log.length
  oldest : w.tab.oldestFetched ≤ w.tab.newest
  shows : Shows w.log w.tab
  generations : ∀ f ∈ w.fetches, f.generation ≤ w.tab.attachmentGeneration
  one : w.fetches.countP (w.tab.awaits gui) ≤ 1
  fetching : ∀ f ∈ w.fetches, w.tab.awaits gui f = true → w.tab.fetchingHistory = true ∧ Fits w.log w.tab f
  -- an attach of the desktop starts with an empty tab
  fresh : gui = .desktop → w.attach.isSome = true →
    w.tab.historyLines = [] ∧ w.tab.oldestFetched = 0 ∧ ∀ f ∈ w.fetches, w.tab.awaits gui f = false

variable {gui} {w : Scrollback}

theorem inv_start (maxLines maxBytes : Nat) : Inv gui (start maxLines maxBytes) where
  ring := HistoryRing.retains_new _ _
  newest := Nat.le_refl _
  attach _ _ h := by cases h
  oldest := Nat.le_refl _
  shows := ⟨0, 0, rfl, Nat.le_refl _, Nat.le_refl _, fun h => absurd rfl h⟩
  generations := List.forall_mem_nil _
  one := Nat.zero_le _
  fetching := List.forall_mem_nil _
  fresh _ h := by cases h

theorem Inv.belowScreen (h : Inv gui w) : BelowScreen w := by
  obtain ⟨s, e, hlines, _, he, _⟩ := h.shows
  exact ⟨s, e, hlines, he.trans h.newest, he⟩

/-! ## The daemon's side -/

theorem Fits.grow {log : List Text} {t : Tab} {f : Fetch} (h : Fits log t f) (more : List Text) :
    Fits (log ++ more) t f := by
  refine ⟨h.before, h.next, ?_⟩
  intro page ha hne
  obtain ⟨s, e, hse, he, hfirst, hlines, hend⟩ := h.page page ha hne
  refine ⟨s, e, hse, ?_, hfirst, ?_, hend⟩
  · rw [List.length_append]
    omega
  · rw [run_grow more he]
    exact hlines

theorem inv_output (h : Inv gui w) (lines : List Text) : Inv gui (w.step gui (.output lines)).1 := by
  have hlen : w.log.length ≤ (w.log ++ lines).length := by
    rw [List.length_append]
    omega
  refine
    { ring := HistoryRing.retains_pushAll h.ring lines
      newest := h.newest.trans hlen
      attach := ?_
      oldest := h.oldest
      shows := ?_
      generations := h.generations, one := h.one
      fetching := fun f hf haw => ⟨(h.fetching f hf haw).1, (h.fetching f hf haw).2.grow lines⟩
      fresh := h.fresh }
  · intro oldest newest ha
    have := h.attach oldest newest ha
    exact ⟨this.1, this.2.trans hlen⟩
  · obtain ⟨s, e, hlines, hse, he, hnext⟩ := h.shows
    refine ⟨s, e, ?_, hse, he, hnext⟩
    rw [show (w.step gui (.output lines)).1.log = w.log ++ lines from rfl, run_grow lines (he.trans h.newest)]
    exact hlines

theorem inv_serveAttach (h : Inv gui w) : Inv gui (w.step gui .serveAttach).1 := by
  simp only [step]
  split
  · rename_i hsent
    exact
      { h with
        attach := fun oldest newest ha => by
          cases ha
          rw [h.ring.newestId]
          exact ⟨h.newest, Nat.le_refl _⟩
        fresh := fun hgui _ => h.fresh hgui (by rw [hsent]; rfl) }
  · exact h

/-- A request is answered: with nothing, or with a run of lines that ends where it asked. -/
theorem inv_answer (h : Inv gui w) {i : Nat} {a : Option HistoryRange}
    (hpage : ∀ f page, w.fetches[i]? = some f → w.tab.awaits gui f = true → a = some page → page.lines ≠ [] →
      ∃ s e, s < e ∧ e ≤ w.log.length ∧ page.firstLineId = s + 1 ∧ page.lines = (w.log.take e).drop s ∧
        if f.beforeLineId = 0 then e ≤ w.tab.newest else e + 1 = f.beforeLineId) : Inv gui (w.answer i a) := by
  unfold answer
  cases hi : w.fetches[i]? with
  | none => exact h
  | some f =>
    simp only
    split
    · have hf : f ∈ w.fetches := List.mem_of_getElem? hi
      have hmem : ∀ g ∈ w.fetches.set i { f with answer := some a }, g ∈ w.fetches ∨ g = { f with answer := some a } := by
        intro g hg
        exact List.mem_or_eq_of_mem_set hg
      have hcount : (w.fetches.set i { f with answer := some a }).countP (w.tab.awaits gui) =
          w.fetches.countP (w.tab.awaits gui) := by
        obtain ⟨hlt, hget⟩ := List.getElem?_eq_some_iff.mp hi
        rw [show w.tab.awaits gui = (fun n => gui == .web || n == w.tab.attachmentGeneration) ∘ Fetch.generation from rfl,
          ← List.countP_map, ← List.countP_map, List.map_set]
        congr 1
        apply List.ext_getElem?
        intro j
        by_cases hj : i = j
        · subst hj
          simp [hlt, hget]
        · simp [hj]
      refine
        { h with
          generations := ?_
          one := by rw [hcount]; exact h.one
          fetching := ?_
          fresh := ?_ }
      · intro g hg
        rcases hmem g hg with hg | rfl
        · exact h.generations g hg
        · exact h.generations f hf
      · intro g hg haw
        rcases hmem g hg with hg | rfl
        · exact h.fetching g hg haw
        · obtain ⟨hfetching, hfits⟩ := h.fetching f hf haw
          refine ⟨hfetching, hfits.before, hfits.next, ?_⟩
          intro page ha hne
          exact hpage f page hi haw (Option.some.inj ha) hne
      · intro hgui hat
        obtain ⟨hlines, hold, hnone⟩ := h.fresh hgui hat
        refine ⟨hlines, hold, ?_⟩
        intro g hg
        rcases hmem g hg with hg | rfl
        · exact hnone g hg
        · exact hnone f hf
    · exact h

/-- The page of a request: the newest one ends where the attach was told, any other right
    below what the tab has. -/
theorem inv_serve (h : Inv gui w) {i frameBytes : Nat} (hok : w.ringUnmoved gui (.serve i frameBytes) = true) :
    Inv gui (w.step gui (.serve i frameBytes)).1 := by
  simp only [step]
  cases hi : w.fetches[i]? with
  | none => exact h
  | some f =>
    refine inv_answer h ?_
    intro g page hg haw ha hne
    cases hi.symm.trans hg
    cases ha
    simp only [ringUnmoved, hi, Option.all_some, haw, Bool.not_true, Bool.false_or, Bool.or_eq_true, bne_iff_ne,
      beq_iff_eq] at hok
    rcases HistoryRing.range_lines h.ring f.beforeLineId historyPageLines (min historyPageBytes (frameBytes / 2))
      with hnil | ⟨s, hs, hle, hfirst, hlines⟩
    · exact absurd hnil hne
    · refine ⟨s, _, hs, hle, hfirst, hlines, ?_⟩
      have hbefore := (h.fetching f (List.mem_of_getElem? hi) haw).2.before
      have hnewest := h.newest
      unfold HistoryRing.upper
      rw [h.ring.newestId] at hok ⊢
      split
      · rename_i hzero
        rcases hok with hnz | hunmoved
        · exact absurd hzero hnz
        · omega
      · rename_i hnz
        omega

/-! ## The tab's side -/

/-- Nothing is awaited while `fetchingHistory` is down. -/
theorem Inv.idle (h : Inv gui w) (hidle : w.tab.fetchingHistory = false) :
    ∀ f ∈ w.fetches, w.tab.awaits gui f = false := by
  intro f hf
  cases haw : w.tab.awaits gui f with
  | false => rfl
  | true =>
    have := (h.fetching f hf haw).1
    rw [hidle] at this
    cases this

theorem inv_fetch (h : Inv gui w) {initial : Bool} (hattach : w.attach.isSome = true → initial = false) :
    Inv gui (w.fetchOlderHistory initial) := by
  unfold fetchOlderHistory
  split
  · exact h
  · rename_i hguard
    simp only [Bool.not_eq_true, Bool.or_eq_false_iff, Bool.not_eq_false'] at hguard
    obtain ⟨⟨⟨hidle, hmore⟩, -⟩, hsend⟩ := hguard
    have hnone := h.idle hidle
    refine
      { ring := h.ring, newest := h.newest, attach := h.attach, oldest := h.oldest, shows := h.shows
        generations := ?_
        one := ?_
        fetching := ?_
        fresh := ?_ }
    · intro f hf
      rcases List.mem_append.mp hf with hf | hf
      · exact h.generations f hf
      · rw [List.mem_singleton.mp hf]
    · have hzero : w.fetches.countP (w.tab.awaits gui) = 0 := by
        rw [List.countP_eq_zero]
        intro f hf
        rw [hnone f hf]
        exact Bool.false_ne_true
      show (w.fetches ++ [_]).countP (w.tab.awaits gui) ≤ 1
      rw [List.countP_append, hzero, Nat.zero_add]
      exact List.countP_le_length
    · intro f hf haw
      rcases List.mem_append.mp hf with hf | hf
      · exact absurd (haw.symm.trans (hnone f hf)) Bool.noConfusion
      · rw [List.mem_singleton.mp hf]
        refine ⟨rfl, h.oldest, fun _ => ⟨rfl, hmore⟩, ?_⟩
        intro page ha
        cases ha
    · -- a reset tab has no older page to ask for
      intro hgui hat
      rw [hattach hat, (h.fresh hgui hat).2.1] at hsend
      cases hsend

theorem inv_beginAttach (h : Inv gui w) : Inv gui (w.beginAttach gui) := by
  unfold beginAttach
  split
  · exact h
  · cases gui with
    | web =>
      exact
        { h with
          attach := fun _ _ ha => by cases ha
          fresh := fun hgui _ => by cases hgui }
    | desktop =>
      have hnone : ∀ f ∈ w.fetches, w.tab.resetForAttach.awaits .desktop f = false := by
        intro f hf
        have := h.generations f hf
        have hne : f.generation ≠ w.tab.attachmentGeneration + 1 := by omega
        exact beq_eq_false_iff_ne.mpr hne
      refine
        { ring := h.ring
          newest := Nat.zero_le _
          attach := fun _ _ ha => by cases ha
          oldest := Nat.le_refl _
          shows := ⟨0, 0, rfl, Nat.le_refl _, Nat.le_refl _, fun hne => absurd rfl hne⟩
          generations := fun f hf => Nat.le_succ_of_le (h.generations f hf)
          one := ?_
          fetching := fun f hf haw => absurd (haw.symm.trans (hnone f hf)) Bool.noConfusion
          fresh := fun _ _ => ⟨rfl, rfl, hnone⟩ }
      have hzero : w.fetches.countP (w.tab.resetForAttach.awaits .desktop) = 0 := by
        rw [List.countP_eq_zero]
        intro f hf
        rw [hnone f hf]
        exact Bool.false_ne_true
      show w.fetches.countP (w.tab.resetForAttach.awaits .desktop) ≤ 1
      omega

theorem inv_attached (h : Inv gui w) : Inv gui (w.attached gui) := by
  unfold attached
  split
  · rename_i oldest newest hat
    obtain ⟨hle, hlog⟩ := h.attach oldest newest hat
    refine inv_fetch ?_ fun hsome => by cases hsome
    cases gui with
    | web =>
      refine
        { ring := h.ring, newest := hlog
          attach := fun _ _ ha => by cases ha
          oldest := Nat.zero_le _
          shows := ⟨0, 0, rfl, Nat.le_refl _, Nat.zero_le _, fun hne => absurd rfl hne⟩
          generations := h.generations, one := h.one
          fetching := ?_
          fresh := fun hgui _ => by cases hgui }
      -- a page that is still due was asked for under an earlier attach
      intro f hf haw
      obtain ⟨hfetching, hfits⟩ := h.fetching f hf haw
      refine ⟨hfetching, hfits.before.trans hle, fun hne => absurd rfl hne, ?_⟩
      intro page ha hne
      obtain ⟨s, e, hse, he, hfirst, hlines, hend⟩ := hfits.page page ha hne
      refine ⟨s, e, hse, he, hfirst, hlines, ?_⟩
      split at hend
      · rename_i hzero
        rw [if_pos hzero]
        exact hend.trans hle
      · rename_i hnz
        rw [if_neg hnz]
        exact hend
    | desktop =>
      obtain ⟨hlines, hold, hnone⟩ := h.fresh rfl (by rw [hat]; rfl)
      refine
        { ring := h.ring, newest := hlog
          attach := fun _ _ ha => by cases ha
          oldest := h.oldest.trans hle
          shows := ⟨0, 0, hlines, Nat.le_refl _, Nat.zero_le _, fun hne => absurd hlines hne⟩
          generations := h.generations, one := h.one
          fetching := fun f hf haw => absurd (haw.symm.trans (hnone f hf)) Bool.noConfusion
          fresh := fun _ ha => by cases ha }
  · exact h

/-- A page goes above what is shown, where it fits. -/
theorem shows_showPage {log : List Text} {t : Tab} {f : Fetch} {page : HistoryRange} (hfits : Fits log t f)
    (ha : f.answer = some (some page)) (hshows : Shows log t) (hold : t.oldestFetched ≤ t.newest) :
    Shows log (t.showPage gui page) ∧ (t.showPage gui page).oldestFetched ≤ t.newest := by
  unfold Tab.showPage
  split
  · obtain ⟨s, e, hlines, hse, he, -⟩ := hshows
    exact ⟨⟨s, e, hlines, hse, he, fun _ hex => by cases hex⟩, hold⟩
  · rename_i hne
    obtain ⟨s', e', hlt, hlog, hfirst, hpage, hend⟩ := hfits.page page ha hne
    obtain ⟨s, e, hlines, hse, he, hnext⟩ := hshows
    obtain ⟨j, hj, hshown, hall⟩ := prependHistory_lines gui t page.lines
    have hlen : page.lines.length = e' - s' := by
      rw [hpage, List.length_drop, List.length_take]
      omega
    have hcut : page.lines.drop j = (log.take e').drop (s' + j) := by
      rw [hpage, List.drop_drop]
    have hbelow : e' ≤ t.newest := by
      have := hfits.before
      split at hend <;> omega
    have hnewest : (t.prependHistory gui page.lines).newest = t.newest := by cases gui <;> rfl
    refine ⟨?_, ?_⟩
    · by_cases hempty : t.historyLines = []
      · refine ⟨s' + j, e', ?_, by omega, by rw [← hnewest] at hbelow; exact hbelow, ?_⟩
        · exact hshown.trans (by rw [hempty, List.append_nil, hcut])
        · intro _ hex
          simp only [Bool.or_eq_false_iff] at hex
          have := hall hex.1.1
          simp only [hfirst]
          omega
      · -- the page ends right below the oldest line shown
        obtain ⟨hbefore, hmore⟩ := hfits.next hempty
        have hs := hnext hempty hmore
        have hjoin : e' = s := by
          split at hend <;> omega
        subst hjoin
        refine ⟨s' + j, e, ?_, by omega, by rw [← hnewest] at he; exact he, ?_⟩
        · refine hshown.trans ?_
          rw [hcut, hlines, run_append (by omega) hse]
        · intro _ hex
          simp only [Bool.or_eq_false_iff] at hex
          have := hall hex.1.1
          simp only [hfirst]
          omega
    · simp only [hfirst]
      omega

theorem received_awaits (gui : Frontend) (t : Tab) (f g : Fetch) (a : Option HistoryRange) :
    (t.received gui f a).awaits gui g = t.awaits gui g ∧ (t.received gui f a).newest = t.newest ∧
      (t.received gui f a).attachmentGeneration = t.attachmentGeneration := by
  unfold Tab.received
  split
  · exact ⟨rfl, rfl, rfl⟩
  · cases a with
    | none => exact ⟨rfl, rfl, rfl⟩
    | some page =>
      simp only
      split
      · exact ⟨rfl, rfl, rfl⟩
      · unfold Tab.showPage
        split <;> cases gui <;> exact ⟨rfl, rfl, rfl⟩

theorem shows_received {log : List Text} {t : Tab} {f : Fetch} {a : Option HistoryRange} (hfits : Fits log t f)
    (ha : f.answer = some a) (hshows : Shows log t) (hold : t.oldestFetched ≤ t.newest) :
    Shows log (t.received gui f a) ∧ (t.received gui f a).oldestFetched ≤ t.newest := by
  unfold Tab.received
  split
  · exact ⟨hshows, hold⟩
  · cases a with
    | none => exact ⟨hshows, hold⟩
    | some page =>
      simp only
      split
      · exact ⟨hshows, hold⟩
      · exact shows_showPage hfits ha hshows hold

/-- Once the one request that is awaited is gone, none is. -/
theorem Inv.erased (h : Inv gui w) {i : Nat} {f : Fetch} (hi : w.fetches[i]? = some f) (haw : w.tab.awaits gui f = true) :
    ∀ g ∈ w.fetches.eraseIdx i, w.tab.awaits gui g = false := by
  obtain ⟨hlt, hget⟩ := List.getElem?_eq_some_iff.mp hi
  have hcount := (List.getElem_cons_eraseIdx_perm hlt).countP_eq (w.tab.awaits gui)
  rw [hget, List.countP_cons_of_pos haw] at hcount
  have hone := h.one
  have hzero : (w.fetches.eraseIdx i).countP (w.tab.awaits gui) = 0 := by omega
  intro g hg
  exact Bool.eq_false_iff.mpr (List.countP_eq_zero.mp hzero g hg)

/-- A request leaves, and the tab takes what it has of it. -/
theorem inv_erase (h : Inv gui w) {i : Nat} {f : Fetch} {t : Tab} (hi : w.fetches[i]? = some f)
    (hsame : (∀ g, t.awaits gui g = w.tab.awaits gui g) ∧ t.newest = w.tab.newest ∧
      t.attachmentGeneration = w.tab.attachmentGeneration)
    (hother : w.tab.awaits gui f = false → t = w.tab)
    (hshows : w.tab.awaits gui f = true → Shows w.log t ∧ t.oldestFetched ≤ w.tab.newest) :
    Inv gui { w with fetches := w.fetches.eraseIdx i, tab := t } := by
  have hmem : ∀ g ∈ w.fetches.eraseIdx i, g ∈ w.fetches := fun g hg => List.mem_of_mem_eraseIdx hg
  have hone : (w.fetches.eraseIdx i).countP (w.tab.awaits gui) ≤ 1 :=
    ((List.eraseIdx_sublist w.fetches i).countP_le).trans h.one
  cases haw : w.tab.awaits gui f with
  | false =>
    obtain rfl := hother haw
    exact
      { h with
        generations := fun g hg => h.generations g (hmem g hg)
        one := hone
        fetching := fun g hg => h.fetching g (hmem g hg)
        fresh := fun hgui hat =>
          ⟨(h.fresh hgui hat).1, (h.fresh hgui hat).2.1, fun g hg => (h.fresh hgui hat).2.2 g (hmem g hg)⟩ }
  | true =>
    obtain ⟨hawaits, hnewest, hgen⟩ := hsame
    have hnone := h.erased hi haw
    obtain ⟨hshown, hold⟩ := hshows haw
    refine
      { ring := h.ring
        newest := by rw [hnewest]; exact h.newest
        attach := by rw [hnewest]; exact h.attach
        oldest := by rw [hnewest]; exact hold
        shows := hshown
        generations := fun g hg => by rw [hgen]; exact h.generations g (hmem g hg)
        one := by rw [show t.awaits gui = w.tab.awaits gui from funext hawaits]; exact hone
        fetching := ?_
        fresh := ?_ }
    · intro g hg hg'
      rw [hawaits, hnone g hg] at hg'
      cases hg'
    · intro hgui hat
      have := (h.fresh hgui hat).2.2 f (List.mem_of_getElem? hi)
      rw [haw] at this
      cases this

theorem inv_receive (h : Inv gui w) (i : Nat) : Inv gui (w.receive gui i) := by
  unfold receive
  cases hi : w.fetches[i]? with
  | none => exact h
  | some f =>
    cases ha : f.answer with
    | none =>
      simp only [ha]
      exact h
    | some a =>
      have hsame := fun g => received_awaits gui w.tab f g a
      simp only [ha]
      refine inv_erase h hi ⟨fun g => (hsame g).1, (hsame f).2⟩ ?_ ?_
      · intro haw
        unfold Tab.received
        rw [if_pos haw]
      · intro haw
        exact shows_received (h.fetching f (List.mem_of_getElem? hi) haw).2 ha h.shows h.oldest

theorem inv_lose (h : Inv gui w) (i : Nat) : Inv gui (w.lose gui i) := by
  unfold lose
  cases hi : w.fetches[i]? with
  | none => exact h
  | some f =>
    cases gui with
    | web => exact inv_erase h hi ⟨fun _ => rfl, rfl, rfl⟩ (fun _ => rfl) fun _ => ⟨h.shows, h.oldest⟩
    | desktop =>
      simp only
      split
      · rename_i hgen
        refine inv_erase h hi ⟨fun _ => rfl, rfl, rfl⟩ ?_ fun _ => ⟨h.shows, h.oldest⟩
        intro haw
        exact absurd hgen (beq_eq_false_iff_ne.mp haw)
      · exact inv_erase h hi ⟨fun _ => rfl, rfl, rfl⟩ (fun _ => rfl) fun _ => ⟨h.shows, h.oldest⟩

theorem inv_disconnect (h : Inv gui w) : Inv gui (w.disconnect gui) := by
  cases gui with
  | web =>
    exact
      { ring := h.ring, newest := h.newest, oldest := h.oldest, shows := h.shows
        attach := fun _ _ ha => by cases ha
        generations := List.forall_mem_nil _
        one := Nat.zero_le _
        fetching := List.forall_mem_nil _
        fresh := fun hgui _ => by cases hgui }
  | desktop =>
    exact
      { ring := h.ring, newest := h.newest, oldest := h.oldest, shows := h.shows
        attach := fun _ _ ha => by cases ha
        generations := h.generations, one := h.one
        fetching := fun f hf haw =>
          have hfits := (h.fetching f hf haw).2
          ⟨(h.fetching f hf haw).1, hfits.before, hfits.next, hfits.page⟩
        fresh := fun _ hat => by cases hat }

/-- The tab goes live or not; nothing else in it changes. -/
theorem inv_live (h : Inv gui w) (live : Bool) : Inv gui { w with tab := { w.tab with live := live } } :=
  { ring := h.ring, newest := h.newest, oldest := h.oldest, shows := h.shows, attach := h.attach
    generations := h.generations, one := h.one
    fetching := fun f hf haw =>
      have hfits := (h.fetching f hf haw).2
      ⟨(h.fetching f hf haw).1, hfits.before, hfits.next, hfits.page⟩
    fresh := h.fresh }

theorem inv_unattach (h : Inv gui w) : Inv gui { w with attach := none } :=
  { h with
    attach := fun _ _ ha => by cases ha
    fresh := fun _ hat => by cases hat }

theorem inv_step (h : Inv gui w) (i : ScrollInput) (hok : w.ringUnmoved gui i = true) : Inv gui (w.step gui i).1 := by
  cases i with
  | output lines => exact inv_output h lines
  | attach => exact inv_beginAttach h
  | serveAttach => exact inv_serveAttach h
  | attached => exact inv_attached h
  | attachFails live => exact inv_live (inv_unattach h) _
  | scroll => exact inv_fetch h fun _ => rfl
  | serve i frameBytes => exact inv_serve h hok
  | refuse i => exact inv_answer h fun _ _ _ _ ha => by cases ha
  | answerEmpty i =>
    refine inv_answer h ?_
    intro f page _ _ ha hne
    cases ha
    exact absurd rfl hne
  | receive i => exact inv_receive h i
  | lose i => exact inv_lose h i
  | detach => exact inv_live h false
  | disconnect => exact inv_disconnect h

theorem inv_run {maxLines maxBytes : Nat} {is : List ScrollInput}
    (hok : (machine gui).Admissible (fun w i => w.ringUnmoved gui i = true) (start maxLines maxBytes) is) :
    Inv gui ((machine gui).run (start maxLines maxBytes) is) := by
  refine (machine gui).run_induction (P := Inv gui) ?_ (inv_start _ _) hok
  intro w i h hi
  exact inv_step h i hi

/-- What a tab shows above its screen is consecutive lines of the history, none newer than
    what the attach of that screen reported. -/
theorem history_below_screen (gui : Frontend) (maxLines maxBytes : Nat) (is : List ScrollInput)
    (hok : (machine gui).Admissible (fun w i => w.ringUnmoved gui i = true) (start maxLines maxBytes) is) :
    BelowScreen ((machine gui).run (start maxLines maxBytes) is) :=
  (inv_run hok).belowScreen

/-- Two pages of one line each; another line scrolls off between them. -/
def pagesOfOne : List ScrollInput :=
  [.output [['a'], ['b']], .attach, .serveAttach, .attached, .serve 0 2, .receive 0,
   .output [['c']], .scroll, .serve 0 2, .receive 0]

theorem history_below_screen_pagesOfOne :
    ((machine .desktop).run (start 10 1000) pagesOfOne).tab.historyLines = [['a'], ['b']] ∧
    ((machine .desktop).run (start 10 1000) pagesOfOne).log = [['a'], ['b'], ['c']] ∧
    (machine .desktop).Admissible (fun w i => w.ringUnmoved .desktop i = true) (start 10 1000) pagesOfOne ∧
    BelowScreen ((machine .desktop).run (start 10 1000) pagesOfOne) :=
  ⟨by decide +kernel, by decide +kernel, by decide +kernel,
    history_below_screen .desktop 10 1000 pagesOfOne (by decide +kernel)⟩

/-- A line scrolls off the screen after the attach and before the newest page is served. -/
def scrollsMeanwhile : List ScrollInput :=
  [.output [['a']], .attach, .serveAttach, .attached, .output [['b']], .serve 0 262144, .receive 0]

theorem BelowScreen.length_le (h : BelowScreen w) : w.tab.historyLines.length ≤ w.tab.newest := by
  obtain ⟨s, e, hlines, -, he⟩ := h
  rw [hlines, List.length_drop, List.length_take]
  omega

/-- The page then holds a line that was on the screen of the snapshot. -/
theorem newest_page_holds_screen_line :
    ¬ BelowScreen ((machine .web).run (start 10 1000) scrollsMeanwhile) ∧
    ¬ BelowScreen ((machine .desktop).run (start 10 1000) scrollsMeanwhile) := by
  refine ⟨fun h => ?_, fun h => ?_⟩
  · have hle : 2 ≤ 1 := h.length_le
    omega
  · have hle : 2 ≤ 1 := h.length_le
    omega

end Scrollback

end Holdfast.Gui
