/-
  Holdfast.Client.StateFile — the state file of the command line client and the processes
  that share it (`load` and `save` of `crates/native-client/src/state.rs`, `persist_entry`,
  `forget_token` and `persist_grant` of `cli.rs`).

  An update loads the file, changes what it has read and saves all of it: into a file whose
  name is the same for every process, which is then renamed over the one in use. An open
  file stays the file it is, whatever is renamed, so two saves at once may write into one
  file, and that one may be in use by then. Reads and writes are cut anywhere.

  The text of a JSON value (serde_json) is a parameter. Directories, permissions and system
  calls that fail for other reasons than a missing file are left out. Among these is the
  read of a file that is not UTF-8: the source fails there and leaves the file in place,
  here it counts as one that does not parse.

  Proved:
  - `state_json`: the JSON of a state is read as that state.
  - `entry_apply`: what an update does to the entry of a shell.
  - `keeps_next`: a move keeps the file sound while no update begins before another has
    ended.
  - `updates_kept`: over every run of that kind the file holds the updates one after the
    other, and a reader is given what was in the file after some of them.
  - `update_lost`: two updates at once.
-/

import Holdfast.Client.Store

namespace Holdfast.Client.Cli

open Holdfast.Base Holdfast.Base.Json Holdfast.Protocol Holdfast.Client.DesktopState

def stateVersion : UInt32 := 1

structure ShellEntry where
  /-- Base64 resume token, the latest rotation. -/
  token : String
  name : String
  idempotencyKey : Option String
  deriving DecidableEq, Repr

/-- Entries by server and shell id, and connection grants by server. -/
structure State where
  version : UInt32
  servers : BTreeMap (BTreeMap ShellEntry)
  grants : BTreeMap String

def State.default : State := ⟨stateVersion, ∅, ∅⟩

/-! ## JSON -/

def ShellEntry.toJson (e : ShellEntry) : Json :=
  .obj ([("token", .str e.token), ("name", .str e.name)] ++ skipNone "idempotency_key" .str e.idempotencyKey)

def ShellEntry.fromJson (j : Json) : Option ShellEntry := do
  let f ← record ["token", "name", "idempotency_key"] j
  let token ← required f "token" string
  let name ← required f "name" string
  let idempotencyKey ← defaulted f "idempotency_key" none (nullable string)
  return ⟨token, name, idempotencyKey⟩

def State.toJson (d : State) : Option Json := do
  let servers ← ofMap (fun shells => ofMap (fun e => some (ShellEntry.toJson e)) shells) d.servers
  let grants ← ofMap (fun grant => some (.str grant)) d.grants
  return .obj [("version", .int d.version.toNat), ("servers", servers), ("grants", grants)]

def State.fromJson (j : Json) : Option State := do
  let f ← record ["version", "servers", "grants"] j
  let version ← defaulted f "version" stateVersion unsigned32
  let servers ← defaulted f "servers" ∅ (toMap (toMap ShellEntry.fromJson))
  let grants ← defaulted f "grants" ∅ (toMap string)
  return ⟨version, servers, grants⟩

theorem shellEntry_json (e : ShellEntry) : ShellEntry.fromJson e.toJson = some e := by
  obtain ⟨token, name, key⟩ := e
  cases key <;> simp [ShellEntry.fromJson, ShellEntry.toJson, record, required, defaulted, find, string, nullable, skipNone]

theorem state_json {d : State} {j : Json} (h : d.toJson = some j) : State.fromJson j = some d := by
  obtain ⟨version, servers, grants⟩ := d
  simp only [State.toJson, Option.bind_eq_bind, Option.bind_eq_some_iff, Option.pure_def, Option.some.injEq] at h
  obtain ⟨serversJson, hservers, grantsJson, hgrants, rfl⟩ := h
  have hshells : ∀ (shells : BTreeMap ShellEntry) (j : Json), ofMap (fun e => some (ShellEntry.toJson e)) shells = some j →
      toMap ShellEntry.fromJson j = some shells := by
    intro shells j hj
    exact toMap_ofMap ShellEntry.fromJson (fun a j hj => by cases hj; exact shellEntry_json a) hj
  have hservers := toMap_ofMap (toMap ShellEntry.fromJson) hshells hservers
  have hgrants := toMap_ofMap string (fun a j hj => by cases hj; rfl) hgrants
  simp [State.fromJson, record, defaulted, find, unsigned32_toNat, hservers, hgrants]

/-! ## Updates -/

inductive Update where
  | persistEntry (url idHex : String) (token : List UInt8) (name : String) (idempotencyKey : Option (List UInt8))
  | forgetToken (url idHex : String)
  | persistGrant (url : String) (grant : List UInt8)
  deriving DecidableEq, Repr

/-- What an update changes in the state it has loaded; a key that is stored stays when none is given. -/
def State.apply (d : State) : Update → State
  | .persistEntry url idHex token name idempotencyKey =>
    let shells := (d.servers[url]?).getD ∅
    let idempotencyKey := (idempotencyKey.map hex).or ((shells[idHex]?).bind ShellEntry.idempotencyKey)
    { d with servers := d.servers.insert url (shells.insert idHex ⟨base64 token, name, idempotencyKey⟩) }
  | .forgetToken url idHex => { d with servers := d.servers.modify url fun shells => shells.erase idHex }
  | .persistGrant url grant => { d with grants := d.grants.insert url (base64 grant) }

def State.entry (d : State) (url idHex : String) : Option ShellEntry := (d.servers[url]?).bind fun shells => shells[idHex]?

def Update.about (url idHex : String) : Update → Bool
  | .persistEntry url' idHex' _ _ _ => url' == url && idHex' == idHex
  | .forgetToken url' idHex' => url' == url && idHex' == idHex
  | .persistGrant _ _ => false

/-- What an update makes of the entry it is about. -/
def Update.onEntry (e : Option ShellEntry) : Update → Option ShellEntry
  | .persistEntry _ _ token name idempotencyKey =>
    some ⟨base64 token, name, (idempotencyKey.map hex).or (e.bind ShellEntry.idempotencyKey)⟩
  | .forgetToken _ _ => none
  | .persistGrant _ _ => e

theorem entry_apply (d : State) (u : Update) (url idHex : String) :
    (d.apply u).entry url idHex = if u.about url idHex then u.onEntry (d.entry url idHex) else d.entry url idHex := by
  cases u with
  | persistEntry url' idHex' token name key =>
    simp only [State.apply, State.entry, Update.about, Update.onEntry, BTreeMap.getElem?_insert]
    by_cases hurl : url' = url
    · subst hurl
      by_cases hid : idHex' = idHex
      · subst hid
        cases h : d.servers[url']? <;> simp
      · cases h : d.servers[url']? <;> simp [BTreeMap.getElem?_insert, hid]
    · simp [hurl]
  | forgetToken url' idHex' =>
    simp only [State.apply, State.entry, Update.about, Update.onEntry, BTreeMap.getElem?_modify]
    by_cases hurl : url' = url
    · subst hurl
      by_cases hid : idHex' = idHex
      · subst hid
        cases h : d.servers[url']? <;> simp
      · cases h : d.servers[url']? <;> simp [BTreeMap.getElem?_erase, hid]
    · simp [hurl]
  | persistGrant url' grant => rfl

/-- The entry of a shell after some updates: what those that are about it made of it. -/
theorem entry_foldl (us : List Update) (d : State) (url idHex : String) :
    (us.foldl State.apply d).entry url idHex = (us.filter (Update.about url idHex)).foldl Update.onEntry (d.entry url idHex) := by
  induction us generalizing d with
  | nil => rfl
  | cons u us ih =>
    rw [List.foldl_cons, ih, entry_apply]
    cases h : u.about url idHex with
    | true => rw [List.filter_cons_of_pos h, List.foldl_cons, if_pos rfl]
    | false => rw [List.filter_cons_of_neg (by simp [h]), if_neg (by simp)]

theorem version_apply (d : State) (u : Update) : (d.apply u).version = d.version := by
  cases u <;> rfl

theorem version_foldl (us : List Update) (d : State) : (us.foldl State.apply d).version = d.version := by
  induction us generalizing d with
  | nil => rfl
  | cons u us ih => rw [List.foldl_cons, ih, version_apply]

/-! ## Files and processes -/

/-- Files are numbered; a name is that of one of them, or free. -/
structure Files where
  content : Nat → List UInt8
  path : Option Nat
  tmp : Option Nat
  /-- Files that did not parse and were moved aside. -/
  backups : List Nat
  fresh : Nat

inductive Proc where
  | idle
  /-- Opened for a read, by an update or by a reader. -/
  | reading (u : Option Update) (file : Nat) (got : List UInt8)
  /-- Loaded and changed. -/
  | holding (u : Update) (stored : State)
  | writing (u : Update) (file offset : Nat) (rest : List UInt8)
  /-- Written and synced. -/
  | written (u : Update)

/-- Is it between the start of its load and the end of its save? -/
def Proc.updating : Proc → Bool
  | .idle => false
  | .reading u _ _ => u.isSome
  | _ => true

structure World where
  files : Files
  procs : Table Nat Proc

inductive Move where
  /-- A process starts an update, or only a load. -/
  | start (p : Nat) (u : Option Update)
  /-- Its next system call, on at most `n + 1` bytes where that makes a difference. -/
  | step (p n : Nat)
  | kill (p : Nat)
  deriving DecidableEq, Repr

inductive Seen where
  | nothing
  /-- What a reader was given. -/
  | loaded (d : State)
  | saved (u : Update)
  | failed

section

variable {D : Type} (T : Codec Json D)

def text (d : State) : List UInt8 := (d.toJson.map T.encode).getD []

/-- `serde_json::from_str::<State>`. -/
def parse (bytes : List UInt8) : Option State :=
  match T.decode bytes with
  | .error _ => none
  | .ok j => State.fromJson j

/-- A write at an offset, past the end too. -/
def overlay (content : List UInt8) (offset : Nat) (piece : List UInt8) : List UInt8 :=
  content.take offset ++ List.replicate (offset - content.length) 0 ++ piece ++ content.drop (offset + piece.length)

def Files.write (f : Files) (file : Nat) (content : List UInt8) : Files :=
  { f with content := Function.update f.content file content }

/-- `open` with `create` and `truncate`, of the temporary name. -/
def Files.create (f : Files) : Files × Nat :=
  match f.tmp with
  | some file => (f.write file [], file)
  | none => ({ f with tmp := some f.fresh, fresh := f.fresh + 1 }.write f.fresh [], f.fresh)

/-- The state is loaded: an update changes it, a reader has it. -/
def given (d : State) : Option Update → Proc × Seen
  | some u => (.holding u (d.apply u), .nothing)
  | none => (.idle, .loaded d)

namespace World

def proc (w : World) (p : Nat) : Proc := (w.procs.lookup p).getD .idle

def put (w : World) (p : Nat) (files : Files) (r : Proc × Seen) : World × Seen := (⟨files, w.procs.insert p r.1⟩, r.2)

/-- The end of the file: what was read is parsed. -/
def parsed (w : World) (p : Nat) (u : Option Update) (got : List UInt8) : World × Seen :=
  match parse T got with
  | some d => if d.version > stateVersion then w.put p w.files (.idle, .failed) else w.put p w.files (given d u)
  | none =>
    -- whatever has the name now is moved aside
    match w.files.path with
    | none => w.put p w.files (.idle, .failed)
    | some file => w.put p { w.files with path := none, backups := file :: w.files.backups } (given .default u)

/-- A system call of a process. -/
def call (w : World) (p n : Nat) : World × Seen :=
  match w.proc p with
  | .idle => (w, .nothing)
  | .reading u file got =>
    let chunk := ((w.files.content file).drop got.length).take (n + 1)
    if chunk = [] then w.parsed T p u got else w.put p w.files (.reading u file (got ++ chunk), .nothing)
  | .holding u stored =>
    let (files, file) := w.files.create
    w.put p files (.writing u file 0 (text T stored), .nothing)
  | .writing u file offset rest =>
    let piece := rest.take (n + 1)
    if piece = [] then w.put p w.files (.written u, .nothing)
    else
      w.put p (w.files.write file (overlay (w.files.content file) offset piece))
        (.writing u file (offset + piece.length) (rest.drop (n + 1)), .nothing)
  | .written u =>
    match w.files.tmp with
    | none => w.put p w.files (.idle, .failed)
    | some file => w.put p { w.files with path := some file, tmp := none } (.idle, .saved u)

/-- `load` begins. -/
def begin (w : World) (p : Nat) (u : Option Update) : World × Seen :=
  match w.proc p with
  | .idle =>
    match w.files.path with
    | none => w.put p w.files (given .default u)
    | some file => w.put p w.files (.reading u file [], .nothing)
  | _ => (w, .nothing)

def machine : Machine World Move Seen where
  step w
    | .start p u => w.begin p u
    | .step p n => w.call T p n
    | .kill p => w.put p w.files (.idle, .nothing)

/-- Processes that are to share a file, of the state `d` or not there yet. -/
def initial : Option State → World
  | some d => ⟨⟨fun _ => text T d, some 0, none, [], 1⟩, ∅⟩
  | none => ⟨⟨fun _ => [], none, none, [], 0⟩, ∅⟩

end World

/-! ## One update at a time -/

/-- The text of the state is read again. -/
def Legible (d : State) : Prop := ∀ j, d.toJson = some j → T.decode (T.encode j) = .ok j

variable {T}

theorem ofMap_total {α : Type} {write : α → Option Json} (h : ∀ a, ∃ j, write a = some j) (m : BTreeMap α) :
    ∃ j, ofMap write m = some j := by
  have hlist : ∀ l : List (String × α), ∃ fields, (l.mapM fun e => (write e.2).map (e.1, ·)) = some fields := by
    intro l
    induction l with
    | nil => exact ⟨[], rfl⟩
    | cons e l ih =>
      obtain ⟨fields, hfields⟩ := ih
      obtain ⟨j, hj⟩ := h e.2
      exact ⟨(e.1, j) :: fields, by rw [List.mapM_cons, hj, hfields]; rfl⟩
  obtain ⟨fields, hfields⟩ := hlist m.toList
  exact ⟨.obj fields, by rw [ofMap, hfields]; rfl⟩

theorem parse_text {d : State} (h : Legible T d) : parse T (text T d) = some d := by
  obtain ⟨servers, hservers⟩ : ∃ j, ofMap (fun shells => ofMap (fun e => some (ShellEntry.toJson e)) shells) d.servers = some j :=
    ofMap_total (fun shells => ofMap_total (fun e => ⟨_, rfl⟩) shells) d.servers
  obtain ⟨grants, hgrants⟩ : ∃ j, ofMap (fun grant => some (Json.str grant)) d.grants = some j :=
    ofMap_total (fun g => ⟨_, rfl⟩) d.grants
  have hj : d.toJson = some (.obj [("version", .int d.version.toNat), ("servers", servers), ("grants", grants)]) := by
    rw [State.toJson, hservers, hgrants]
    rfl
  rw [parse, text, hj, Option.map_some, Option.getD_some, h _ hj]
  exact state_json hj

/-- A write behind what is there. -/
theorem overlay_length (content piece : List UInt8) : overlay content content.length piece = content ++ piece := by
  simp [overlay]

/-- The state after the updates. -/
def after (d₀ : State) (us : List Update) : State := us.foldl State.apply d₀

/-- The name in use is that of a file with the state after the updates. -/
structure InUse (T : Codec Json D) (d₀ : State) (us : List Update) (f : Files) : Prop where
  path : ∀ file, f.path = some file → file < f.fresh ∧ f.tmp ≠ some file ∧ f.content file = text T (after d₀ us) ∧
    Legible T (after d₀ us)
  absent : f.path = none → us = [] ∧ d₀ = .default
  tmp : ∀ file, f.tmp = some file → file < f.fresh
  intact : f.backups = []
  version : d₀.version ≤ stateVersion

/-- Where a process is, in an order of updates. -/
def Fit (T : Codec Json D) (d₀ : State) (us : List Update) (f : Files) : Proc → Prop
  | .idle => True
  | .reading u file got => file < f.fresh ∧ f.tmp ≠ some file ∧ got <+: f.content file ∧
      ∃ us', us' <+: us ∧ f.content file = text T (after d₀ us') ∧ Legible T (after d₀ us') ∧ (u.isSome → us' = us)
  | .holding u stored => stored = (after d₀ us).apply u
  | .writing u file offset rest => f.tmp = some file ∧ offset = (f.content file).length ∧
      f.content file ++ rest = text T ((after d₀ us).apply u)
  | .written u => ∃ file, f.tmp = some file ∧ f.content file = text T ((after d₀ us).apply u)

/-- The file holds the updates one after the other, and no two are under way. -/
structure Sound (T : Codec Json D) (d₀ : State) (us : List Update) (w : World) : Prop where
  inUse : InUse T d₀ us w.files
  fits : ∀ p, Fit T d₀ us w.files (w.proc p)
  alone : ∀ p q, (w.proc p).updating → (w.proc q).updating → p = q

/-- Nothing but the temporary file is changed. -/
structure Frame (f f' : Files) : Prop where
  fresh : f.fresh ≤ f'.fresh
  kept : ∀ file, file < f.fresh → f.tmp ≠ some file → f'.content file = f.content file ∧ f'.tmp ≠ some file

theorem frame_create (f : Files) : Frame f f.create.1 := by
  unfold Files.create
  split
  · rename_i file htmp
    refine ⟨Nat.le_refl _, fun a _ hne => ⟨?_, hne⟩⟩
    exact Function.update_of_ne (fun heq => hne (by rw [heq]; exact htmp)) _ _
  · refine ⟨Nat.le_succ _, fun a hlt _ => ⟨?_, ?_⟩⟩
    · exact Function.update_of_ne (Nat.ne_of_lt hlt) _ _
    · intro heq
      cases heq
      exact Nat.lt_irrefl _ hlt

theorem frame_write {f : Files} {file : Nat} (htmp : f.tmp = some file) (content : List UInt8) : Frame f (f.write file content) :=
  ⟨Nat.le_refl _, fun a _ hne => ⟨Function.update_of_ne (fun heq => hne (by rw [heq]; exact htmp)) _ _, hne⟩⟩

variable {d₀ : State} {us us' : List Update} {w : World} {p : Nat}

/-- A process that is not updating is not touched by one that is. -/
theorem Fit.frame {f f' : Files} {r : Proc} (h : Fit T d₀ us f r) (hr : r.updating = false) (hf : Frame f f') (hus : us <+: us') :
    Fit T d₀ us' f' r := by
  cases r with
  | idle => trivial
  | reading u file got =>
    obtain ⟨hfresh, htmp, hgot, vs, hvs, hcontent, hlegible, -⟩ := h
    obtain ⟨hkept, htmp'⟩ := hf.kept file hfresh htmp
    refine ⟨Nat.lt_of_lt_of_le hfresh hf.fresh, htmp', by rw [hkept]; exact hgot, vs, hvs.trans hus,
      by rw [hkept]; exact hcontent,
      hlegible, fun hsome => ?_⟩
    rw [show u.isSome = false from hr] at hsome
    cases hsome
  | holding u stored => cases hr
  | writing u file offset rest => cases hr
  | written u => cases hr

namespace World

theorem proc_put (w : World) (p : Nat) (files : Files) (r : Proc × Seen) (q : Nat) :
    (w.put p files r).1.proc q = if q = p then r.1 else w.proc q := by
  unfold put proc
  dsimp only
  by_cases hq : q = p
  · rw [if_pos hq, hq, AList.lookup_insert]
    rfl
  · rw [if_neg hq, AList.lookup_insert_ne hq]

end World

/-- A process that is not updating, or the one that is, goes on. -/
theorem sound_put (h : Sound T d₀ us w) {files : Files} {r : Proc} (e : Seen) (hfiles : InUse T d₀ us' files)
    (hothers : ∀ q, q ≠ p → Fit T d₀ us' files (w.proc q)) (hself : Fit T d₀ us' files r)
    (hr : r.updating → ∀ q, q ≠ p → (w.proc q).updating = false) : Sound T d₀ us' (w.put p files (r, e)).1 := by
  refine ⟨hfiles, fun q => ?_, fun a b ha hb => ?_⟩
  · rw [World.proc_put]
    by_cases hq : q = p
    · rw [if_pos hq]
      exact hself
    · rw [if_neg hq]
      exact hothers q hq
  · rw [World.proc_put] at ha hb
    by_cases hap : a = p
    · by_cases hbp : b = p
      · rw [hap, hbp]
      · rw [if_pos hap] at ha
        rw [if_neg hbp, hr ha b hbp] at hb
        cases hb
    · by_cases hbp : b = p
      · rw [if_pos hbp] at hb
        rw [if_neg hap, hr hb a hap] at ha
        cases ha
      · rw [if_neg hap] at ha
        rw [if_neg hbp] at hb
        exact h.alone a b ha hb

theorem Sound.others (h : Sound T d₀ us w) (hp : (w.proc p).updating = true) {q : Nat} (hq : q ≠ p) :
    (w.proc q).updating = false := by
  by_contra hno
  exact hq (h.alone q p (by simpa using hno) hp)

/-- Neither the files nor the order change. -/
theorem sound_stays (h : Sound T d₀ us w) {r : Proc} (e : Seen) (hself : Fit T d₀ us w.files r)
    (hr : r.updating → ∀ q, q ≠ p → (w.proc q).updating = false) : Sound T d₀ us (w.put p w.files (r, e)).1 :=
  sound_put h e h.inUse (fun q _ => h.fits q) hself hr

/-- What a save adds to the order. -/
def savedBy : Seen → List Update
  | .saved u => [u]
  | _ => []

/-- A reader is given what was in the file after some of the updates, and nothing fails. -/
def Told (d₀ : State) (us : List Update) : Seen → Prop
  | .loaded d => ∃ us', us' <+: us ∧ d = after d₀ us'
  | .failed => False
  | _ => True

/-- A move, from a sound state. -/
def Keeps (T : Codec Json D) (d₀ : State) (us : List Update) (r : World × Seen) : Prop :=
  Sound T d₀ (us ++ savedBy r.2) r.1 ∧ Told d₀ us r.2

theorem keeps_quiet {w' : World} (h : Sound T d₀ us w') : Keeps T d₀ us (w', .nothing) := by
  refine ⟨?_, trivial⟩
  show Sound T d₀ (us ++ []) w'
  rw [List.append_nil]
  exact h

theorem keeps_given (h : Sound T d₀ us w) {u : Option Update} (hus : us' <+: us) (hsome : u.isSome → us' = us)
    (hr : u.isSome → ∀ q, q ≠ p → (w.proc q).updating = false) :
    Keeps T d₀ us (w.put p w.files (given (after d₀ us') u)) := by
  cases u with
  | none =>
    refine ⟨?_, us', hus, rfl⟩
    show Sound T d₀ (us ++ []) _
    rw [List.append_nil]
    exact sound_stays h _ trivial fun hno => (by cases hno)
  | some u =>
    obtain rfl := hsome rfl
    exact keeps_quiet (sound_stays h _ rfl fun _ => hr rfl)

theorem keeps_begin (h : Sound T d₀ us w) {u : Option Update}
    (hr : u.isSome → ∀ q, (w.proc q).updating = false) : Keeps T d₀ us (w.begin p u) := by
  unfold World.begin
  split
  · split
    · rename_i hpath
      obtain ⟨rfl, rfl⟩ := h.inUse.absent hpath
      exact keeps_given h (List.prefix_refl []) (fun _ => rfl) fun hsome q _ => hr hsome q
    · rename_i file hpath
      obtain ⟨hfresh, htmp, hcontent, hlegible⟩ := h.inUse.path file hpath
      refine keeps_quiet (sound_stays h _ ?_ fun hsome q _ => hr hsome q)
      exact ⟨hfresh, htmp, List.nil_prefix, us, List.prefix_refl _, hcontent, hlegible, fun _ => rfl⟩
  · exact keeps_quiet h

theorem keeps_reading (h : Sound T d₀ us w) {u : Option Update} {file : Nat} {got : List UInt8}
    (hproc : w.proc p = .reading u file got) (n : Nat) : Keeps T d₀ us (w.call T p n) := by
  have hfit := h.fits p
  rw [hproc] at hfit
  obtain ⟨hfresh, htmp, hgot, us', hus, hcontent, hlegible, hsome⟩ := hfit
  have hothers : u.isSome → ∀ q, q ≠ p → (w.proc q).updating = false := by
    intro hu q hq
    exact h.others (by rw [hproc]; exact hu) hq
  rw [World.call, hproc]
  dsimp only
  split
  · rename_i hend
    -- all of the file was read, and it is a state's text
    have hall : got = w.files.content file := by
      obtain ⟨more, hmore⟩ := hgot
      rw [← hmore, List.drop_left] at hend
      have hnil : more = [] := by
        cases more with
        | nil => rfl
        | cons b more => cases hend
      rw [← hmore, hnil, List.append_nil]
    have hversion : ¬(after d₀ us').version > stateVersion := by
      rw [after, version_foldl]
      exact UInt32.not_lt.mpr h.inUse.version
    rw [World.parsed, hall, hcontent, parse_text hlegible]
    simp only [hversion, if_false]
    exact keeps_given h hus hsome hothers
  · refine keeps_quiet (sound_stays h _ ?_ hothers)
    refine ⟨hfresh, htmp, ?_, us', hus, hcontent, hlegible, hsome⟩
    obtain ⟨more, hmore⟩ := hgot
    rw [← hmore, List.drop_left]
    exact (List.prefix_append_right_inj got).mpr (List.take_prefix _ _)

/-- The temporary file is new, or was left by a save that was killed. -/
theorem create_spec (f : Files) : ∃ file, f.create.2 = file ∧ f.create.1.tmp = some file ∧ f.create.1.content file = [] ∧
    f.create.1.path = f.path ∧ f.create.1.backups = f.backups ∧ (f.tmp = some file ∧ f.create.1.fresh = f.fresh ∨
      f.tmp = none ∧ file = f.fresh ∧ f.create.1.fresh = f.fresh + 1) := by
  unfold Files.create
  split
  · rename_i file htmp
    exact ⟨file, rfl, htmp, Function.update_self .., rfl, rfl, .inl ⟨htmp, rfl⟩⟩
  · rename_i htmp
    exact ⟨f.fresh, rfl, rfl, Function.update_self .., rfl, rfl, .inr ⟨htmp, rfl, rfl⟩⟩

theorem keeps_holding (h : Sound T d₀ us w) {u : Update} {stored : State} (hproc : w.proc p = .holding u stored) (n : Nat) :
    Keeps T d₀ us (w.call T p n) := by
  have hfit := h.fits p
  rw [hproc] at hfit
  obtain rfl : stored = (after d₀ us).apply u := hfit
  have hothers : ∀ q, q ≠ p → (w.proc q).updating = false := fun q hq => h.others (by rw [hproc]; rfl) hq
  have hframe := frame_create w.files
  obtain ⟨file, hfile, htmp, hempty, hpath, hbackups, hfresh⟩ := create_spec w.files
  rw [World.call, hproc]
  generalize w.files.create = r at *
  refine keeps_quiet (sound_put h _ ?_ (fun q hq => (h.fits q).frame (hothers q hq) hframe (List.prefix_refl _)) ?_
    fun _ => hothers)
  · refine ⟨fun a ha => ?_, fun ha => h.inUse.absent (by rw [← hpath]; exact ha), fun a ha => ?_,
      by rw [hbackups]; exact h.inUse.intact,
      h.inUse.version⟩
    · rw [hpath] at ha
      obtain ⟨hlt, hne, hcontent, hleg⟩ := h.inUse.path a ha
      obtain ⟨hkept, hne'⟩ := hframe.kept a hlt hne
      exact ⟨Nat.lt_of_lt_of_le hlt hframe.fresh, hne', by rw [hkept]; exact hcontent, hleg⟩
    · rw [htmp] at ha
      cases ha
      rcases hfresh with ⟨hold, heq⟩ | ⟨-, hnew, heq⟩
      · rw [heq]
        exact h.inUse.tmp _ hold
      · omega
  · rw [hfile]
    exact ⟨htmp, by rw [hempty]; rfl, by rw [hempty]; rfl⟩

theorem keeps_writing (h : Sound T d₀ us w) {u : Update} {file offset : Nat} {rest : List UInt8}
    (hproc : w.proc p = .writing u file offset rest) (n : Nat) : Keeps T d₀ us (w.call T p n) := by
  have hfit := h.fits p
  rw [hproc] at hfit
  obtain ⟨htmp, rfl, hcontent⟩ := hfit
  have hothers : ∀ q, q ≠ p → (w.proc q).updating = false := fun q hq => h.others (by rw [hproc]; rfl) hq
  rw [World.call, hproc]
  dsimp only
  split
  · rename_i hend
    have hnil : rest = [] := by
      cases rest with
      | nil => rfl
      | cons b rest => cases hend
    rw [hnil, List.append_nil] at hcontent
    exact keeps_quiet (sound_stays h _ ⟨file, htmp, hcontent⟩ fun _ => hothers)
  · rw [overlay_length]
    have hframe := frame_write (f := w.files) htmp (w.files.content file ++ rest.take (n + 1))
    have hnow : (w.files.write file (w.files.content file ++ rest.take (n + 1))).content file =
        w.files.content file ++ rest.take (n + 1) := Function.update_self ..
    refine keeps_quiet (sound_put h _ ?_ (fun q hq => (h.fits q).frame (hothers q hq) hframe (List.prefix_refl _)) ?_
      fun _ => hothers)
    · refine ⟨fun a ha => ?_, h.inUse.absent, h.inUse.tmp, h.inUse.intact, h.inUse.version⟩
      obtain ⟨hlt, hne, hcontent', hleg⟩ := h.inUse.path a ha
      obtain ⟨hkept, hne'⟩ := hframe.kept a hlt hne
      exact ⟨hlt, hne', by rw [hkept]; exact hcontent', hleg⟩
    · refine ⟨htmp, ?_, ?_⟩
      · rw [hnow, List.length_append]
      · rw [hnow, List.append_assoc, List.take_append_drop]
        exact hcontent

theorem keeps_written (h : Sound T d₀ us w) {u : Update} (hproc : w.proc p = .written u) (n : Nat)
    (hlegible : ∀ u, (w.call T p n).2 = .saved u → Legible T (after d₀ (us ++ [u]))) : Keeps T d₀ us (w.call T p n) := by
  have hfit := h.fits p
  rw [hproc] at hfit
  obtain ⟨file, htmp, hcontent⟩ := hfit
  have hothers : ∀ q, q ≠ p → (w.proc q).updating = false := fun q hq => h.others (by rw [hproc]; rfl) hq
  have hafter : after d₀ (us ++ [u]) = (after d₀ us).apply u := by rw [after, List.foldl_append]; rfl
  rw [World.call, hproc] at hlegible ⊢
  dsimp only at hlegible ⊢
  rw [htmp] at hlegible ⊢
  refine ⟨sound_put h _ ?_ (fun q hq => ?_) trivial fun hno => (by cases hno), trivial⟩
  · refine ⟨fun a ha => ?_, fun hno => (by cases hno), fun a ha => (by cases ha), h.inUse.intact, h.inUse.version⟩
    cases ha
    refine ⟨h.inUse.tmp file htmp, by simp, ?_, ?_⟩
    · exact hcontent.trans (congrArg (text T) hafter.symm)
    · exact hlegible u rfl
  · exact (h.fits q).frame (hothers q hq) ⟨Nat.le_refl _, fun _ _ _ => ⟨rfl, by simp⟩⟩ (List.prefix_append _ _)

/-! ## Runs -/

variable (T) in
/-- What a load would give now. -/
def Files.loads (f : Files) : Option State :=
  match f.path with
  | none => some .default
  | some file => parse T (f.content file)

/-- The updates in the order in which they were saved. -/
def savedUpdates (tr : List (Move × Seen)) : List Update := tr.flatMap fun e => savedBy e.2

/-- No update begins before another has ended. -/
def World.Alone (w : World) : Move → Prop
  | .start _ (some _) => ((Table.values w.procs).all fun r => !r.updating) = true
  | _ => True

instance (w : World) : (m : Move) → Decidable (w.Alone m)
  | .start _ (some _) => inferInstanceAs (Decidable (((Table.values w.procs).all fun r => !r.updating) = true))
  | .start _ none => .isTrue trivial
  | .step _ _ => .isTrue trivial
  | .kill _ => .isTrue trivial

theorem World.Alone.none_updating {u : Update} (h : w.Alone (.start p (some u))) (q : Nat) : (w.proc q).updating = false := by
  unfold World.proc
  cases hq : w.procs.lookup q with
  | none => rfl
  | some r =>
    have hmem : r ∈ Table.values w.procs := List.mem_map.mpr ⟨⟨q, r⟩, Table.mem_entries_iff.mpr hq, rfl⟩
    simpa using List.all_eq_true.mp h r hmem

theorem keeps_next (h : Sound T d₀ us w) {m : Move} (ha : w.Alone m)
    (hl : ∀ u, (World.machine T).out w m = .saved u → Legible T (after d₀ (us ++ [u]))) :
    Keeps T d₀ us ((World.machine T).step w m) := by
  cases m with
  | start p u =>
    apply keeps_begin h
    intro hu q
    obtain ⟨u, rfl⟩ := Option.isSome_iff_exists.mp hu
    exact ha.none_updating q
  | step p n =>
    show Keeps T d₀ us (w.call T p n)
    cases hproc : w.proc p with
    | idle =>
      rw [World.call, hproc]
      exact keeps_quiet h
    | reading u file got => exact keeps_reading h hproc n
    | holding u stored => exact keeps_holding h hproc n
    | writing u file offset rest => exact keeps_writing h hproc n
    | written u => exact keeps_written h hproc n hl
  | kill p => exact keeps_quiet (sound_stays h _ trivial fun hno => by cases hno)

theorem Told.more (h : Told d₀ us e) (hus : us <+: us') : Told d₀ us' e := by
  cases e with
  | loaded d =>
    obtain ⟨vs, hvs, hd⟩ := h
    exact ⟨vs, hvs.trans hus, hd⟩
  | nothing => trivial
  | saved u => trivial
  | failed => exact h

/-- The state that is in the file at first. -/
def atFirst (d₀ : Option State) : State := d₀.getD .default

theorem sound_initial {d₀ : Option State} (h : ∀ d, d₀ = some d → Legible T d ∧ d.version ≤ stateVersion) :
    Sound T (atFirst d₀) [] (World.initial T d₀) := by
  have hidle : ∀ p, (World.initial T d₀).proc p = .idle := by
    intro p
    cases d₀ <;> rfl
  refine ⟨?_, fun p => by rw [hidle]; trivial, fun p q hp => by rw [hidle] at hp; cases hp⟩
  cases d₀ with
  | none => exact ⟨fun _ hno => (by cases hno), fun _ => ⟨rfl, rfl⟩, fun _ hno => (by cases hno), rfl, by decide⟩
  | some d =>
    obtain ⟨hlegible, hversion⟩ := h d rfl
    refine ⟨fun file hfile => ?_, fun hno => (by cases hno), fun _ hno => (by cases hno), rfl, hversion⟩
    cases hfile
    exact ⟨Nat.zero_lt_one, fun hno => (by cases hno), rfl, hlegible⟩

/-- Over every run in which no update begins before another has ended, and serde_json reads back what is
    saved: a load would give the updates saved so far, one after the other; so each shell has the entry
    that the updates about it have made; a load that has ended was given what was in the file after some
    of them; and none has failed. -/
theorem updates_kept (T : Codec Json D) (d₀ : Option State)
    (h₀ : ∀ d, d₀ = some d → Legible T d ∧ d.version ≤ stateVersion) (moves : List Move)
    (h : (World.machine T).Admissible World.Alone (World.initial T d₀) moves)
    (hT : ∀ us u, us ++ [u] <+: savedUpdates ((World.machine T).trace (World.initial T d₀) moves) →
      Legible T (after (atFirst d₀) (us ++ [u]))) :
    let us := savedUpdates ((World.machine T).trace (World.initial T d₀) moves)
    (∃ d, ((World.machine T).run (World.initial T d₀) moves).files.loads T = some d ∧ d = after (atFirst d₀) us ∧
      ∀ url idHex, d.entry url idHex =
        (us.filter (Update.about url idHex)).foldl Update.onEntry ((atFirst d₀).entry url idHex)) ∧
    ∀ e ∈ (World.machine T).trace (World.initial T d₀) moves, Told (atFirst d₀) us e.2 := by
  have hrun := (World.machine T).trace_induction
    (P := fun tr w => (∀ us u, us ++ [u] <+: savedUpdates tr → Legible T (after (atFirst d₀) (us ++ [u]))) →
      Sound T (atFirst d₀) (savedUpdates tr) w ∧ ∀ e ∈ tr, Told (atFirst d₀) (savedUpdates tr) e.2)
    (fun _ => ⟨sound_initial h₀, fun e he => by cases he⟩) (fun tr w m hw hm hread => ?_) h hT
  · obtain ⟨hsound, htold⟩ := hrun
    refine ⟨⟨_, ?_, rfl, fun url idHex => entry_foldl _ _ url idHex⟩, htold⟩
    unfold Files.loads
    split
    · rename_i hpath
      obtain ⟨hnone, hdefault⟩ := hsound.inUse.absent hpath
      rw [hnone, hdefault]
      rfl
    · rename_i file hpath
      obtain ⟨-, -, hcontent, hlegible⟩ := hsound.inUse.path file hpath
      rw [hcontent]
      exact parse_text hlegible
  · have hsaved : savedUpdates (tr ++ [(m, (World.machine T).out w m)]) =
        savedUpdates tr ++ savedBy ((World.machine T).out w m) := by
      simp [savedUpdates]
    rw [hsaved] at hread ⊢
    obtain ⟨hsound, htold⟩ := hw fun us u hus => hread us u (hus.trans (List.prefix_append _ _))
    obtain ⟨hnext, hnew⟩ := keeps_next hsound hm fun u hu => hread _ u (by rw [hu]; exact List.prefix_refl _)
    refine ⟨hnext, fun e he => ?_⟩
    rcases List.mem_append.mp he with he | he
    · exact (htold e he).more (List.prefix_append _ _)
    · rw [List.mem_singleton.mp he]
      exact hnew.more (List.prefix_append _ _)

end

/-! ## Two updates at once -/

/-- A state with one shell, as it is in the file. -/
def oneShellText (idHex : String) : List UInt8 :=
  ("\x7b\n  \"version\": 1,\n  \"servers\": \x7b\n    \"https://h\": \x7b\n      \"" ++ idHex ++
    "\": \x7b\n        \"token\": \"QQ==\",\n        \"name\": \"shell\"\n      \x7d\n    \x7d\n  \x7d,\n  " ++
    "\"grants\": \x7b\x7d\n\x7d").toUTF8.toList

def oneShellJson (idHex : String) : Json :=
  .obj [("version", .int 1),
    ("servers", .obj [("https://h", .obj [(idHex, .obj [("token", .str "QQ=="), ("name", .str "shell")])])]),
    ("grants", .obj [])]

/-- The text of a state with the shell `aa`, or with the shell `bb`. -/
def oneShellCodec : Codec Json Unit where
  encode
    | .obj [_, (_, .obj [(_, .obj [(idHex, _)])]), _] => oneShellText idHex
    | _ => []
  decode bytes :=
    if bytes = oneShellText "aa" then .ok (oneShellJson "aa")
    else if bytes = oneShellText "bb" then .ok (oneShellJson "bb")
    else .error ()

def persistShell (idHex : String) : Update := .persistEntry "https://h" idHex [65] "shell" none

theorem legible_bb : Legible oneShellCodec (State.default.apply (persistShell "bb")) := by
  intro j hj
  obtain rfl : oneShellJson "bb" = j := Option.some.inj hj
  have hne : oneShellText "bb" ≠ oneShellText "aa" := by decide +kernel
  show oneShellCodec.decode (oneShellText "bb") = _
  exact (if_neg hne).trans (if_pos rfl)

/-- A token is rotated while a reader has the file open. -/
theorem updates_kept_rotated :
    let M := World.machine oneShellCodec
    let moves : List Move := [.start 1 (some (persistShell "aa")), .step 1 0, .step 1 99, .step 1 99, .step 1 0, .step 1 0,
      .start 3 none, .step 3 99, .start 2 (some (persistShell "aa")), .step 2 200, .step 2 0, .step 2 0, .step 2 99, .step 2 99,
      .step 2 0, .step 3 99, .step 2 0, .step 3 0]
    let w := World.initial oneShellCodec none
    savedUpdates (M.trace w moves) = [persistShell "aa", persistShell "aa"] ∧
      ∃ d, (M.run w moves).files.loads oneShellCodec = some d ∧ d = after .default (savedUpdates (M.trace w moves)) ∧
        ∀ url idHex, d.entry url idHex =
          ((savedUpdates (M.trace w moves)).filter (Update.about url idHex)).foldl Update.onEntry
            (State.default.entry url idHex) := by
  intro M moves w
  have hsaved : savedUpdates (M.trace w moves) = [persistShell "aa", persistShell "aa"] := by decide +kernel
  refine ⟨hsaved, (updates_kept oneShellCodec none (fun d hd => by cases hd) moves (by decide +kernel) ?_).1⟩
  intro us u hus
  have hlegible : ∀ d : State, d.toJson = some (oneShellJson "aa") → Legible oneShellCodec d := by
    intro d hd j hj
    rw [hd] at hj
    cases hj
    exact if_pos rfl
  -- both saves write the one text
  rw [hsaved] at hus
  obtain ⟨more, hmore⟩ := hus
  match us, hmore with
  | [], hmore =>
    cases hmore
    exact hlegible _ rfl
  | [_], hmore =>
    cases hmore
    exact hlegible _ rfl
  | _ :: _ :: us, hmore =>
    have hlen := congrArg List.length hmore
    simp only [List.length_append, List.length_cons, List.length_nil] at hlen
    omega

/-- Two shells are opened at once. The second save undoes the first; or the second process empties the
    file that the first then renames over the one in use, and a reader finds it half written and moves
    it aside. -/
theorem update_lost :
    let M := World.machine oneShellCodec
    let w := World.initial oneShellCodec none
    let opens : List Move := [.start 1 (some (persistShell "aa")), .start 2 (some (persistShell "bb")), .step 1 0, .step 1 200,
      .step 1 0]
    let undone := opens ++ [.step 1 0, .step 2 0, .step 2 200, .step 2 0, .step 2 0]
    let halved := opens ++ [.step 2 0, .step 2 4, .step 1 0, .start 3 none, .step 3 200, .step 3 0]
    (savedUpdates (M.trace w undone) = [persistShell "aa", persistShell "bb"] ∧
      ∃ d, (M.run w undone).files.loads oneShellCodec = some d ∧ d.entry "https://h" "aa" = none) ∧
    savedUpdates (M.trace w halved) = [persistShell "aa"] ∧ (M.run w halved).files.path = none ∧
      (M.run w halved).files.backups = [0] := by
  intro M w opens undone halved
  refine ⟨⟨by decide +kernel, State.default.apply (persistShell "bb"), ?_, rfl⟩, by decide +kernel⟩
  have hpath : (M.run w undone).files.path = some 1 := by decide +kernel
  have hcontent : (M.run w undone).files.content 1 = oneShellText "bb" := by decide +kernel
  rw [Files.loads, hpath]
  show parse oneShellCodec ((M.run w undone).files.content 1) = _
  rw [hcontent]
  exact parse_text legible_bb

end Holdfast.Client.Cli
