/-
  Holdfast.Client.NewerFile — a state file that a newer client has written (`load` of
  `crates/native-client/src/state.rs`, `Store::load` and `import_v1` of
  `crates/client-core/src/store.rs`).

  Both clients look at the version only after the whole document has been read as a record
  of their own schema. The desktop client refuses either way and has no state to save then.
  The command line client takes a document of another shape for a corrupt one, moves it
  aside and starts afresh. The import has no version to look at.

  `Refuses` and `DesktopRefuses` are about every run of the clients from then on.

  Proved:
  - `refuses_iff`: the command line client leaves the document alone if and only if it has
    the old shape.
  - `desktopRefuses`: the desktop client always does.
  - `newer_kept_iff`: when the document is kept and not imported.
-/

import Holdfast.Client.StateFile

namespace Holdfast.Client.Cli.NewerFile

open Holdfast.Base Holdfast.Base.Json Holdfast.Protocol Holdfast.Client.DesktopState

/-- The document has a version, and it is an integer beyond `known`. -/
def Newer (known : UInt32) (j : Json) : Prop :=
  ∃ fields n, j = .obj fields ∧ find fields "version" = some (some (.int n)) ∧ (known.toNat : Int) < n

theorem unsigned32_newer {known v : UInt32} {n : Int} (h : unsigned32 (.int n) = some v)
    (hn : (known.toNat : Int) < n) : v > known := by
  rw [unsigned32] at h
  split at h
  · rename_i hfits
    obtain rfl := Option.some.inj h
    show known < UInt32.ofNat n.toNat
    rw [UInt32.lt_iff_toNat_lt, UInt32.toNat_ofNat_of_lt' (by show n.toNat < 2 ^ 32; omega)]
    omega
  · cases h

theorem state_newer {j : Json} {d : State} (hnewer : Newer stateVersion j) (h : State.fromJson j = some d) :
    d.version > stateVersion := by
  obtain ⟨fields, n, rfl, hfind, hn⟩ := hnewer
  simp only [State.fromJson, record, defaulted, hfind, Option.bind_eq_bind, Option.bind_some, Option.bind_eq_some_iff,
    Option.pure_def, Option.some.injEq] at h
  obtain ⟨version, hversion, servers, -, grants, -, rfl⟩ := h
  exact unsigned32_newer hversion hn

theorem storeData_newer {j : Json} {d : StoreData} (hnewer : Newer storeVersion j) (h : StoreData.fromJson j = some d) :
    d.version > storeVersion := by
  obtain ⟨fields, n, rfl, hfind, hn⟩ := hnewer
  simp only [StoreData.fromJson, record, required, hfind, Option.bind_eq_bind, Option.bind_some, Option.bind_eq_some_iff,
    Option.pure_def, Option.some.injEq] at h
  obtain ⟨version, hversion, servers, -, rfl⟩ := h
  exact unsigned32_newer hversion hn

/-! ## The command line client -/

section

variable {D : Type} (T : Codec Json D)

/-- Over every run of its processes, which all start with the document in the file: it stays
    there, no load is given a state and nothing is saved. -/
def Refuses (bytes : List UInt8) : Prop :=
  ∀ (files : Files) (file : Nat), files.path = some file → files.content file = bytes → ∀ moves : List Move,
    let w := (World.machine T).run ⟨files, ∅⟩ moves
    (w.files.path = some file ∧ w.files.content file = bytes) ∧
      ∀ e ∈ (World.machine T).trace ⟨files, ∅⟩ moves, e.2 = .nothing ∨ e.2 = .failed

variable {T} {files : Files} {file : Nat} {bytes : List UInt8}

/-- Processes read the file, some of them on behalf of an update, and nothing is changed. -/
structure Waiting (files : Files) (file : Nat) (w : World) : Prop where
  same : w.files = files
  procs : ∀ p, w.proc p = .idle ∨ ∃ u got, w.proc p = .reading u file got ∧ got <+: files.content file

theorem Waiting.put {w : World} (h : Waiting files file w) (p : Nat) {r : Proc} (e : Seen)
    (hr : r = .idle ∨ ∃ u got, r = .reading u file got ∧ got <+: files.content file) :
    Waiting files file (w.put p files (r, e)).1 := by
  refine ⟨rfl, fun q => ?_⟩
  rw [World.proc_put]
  split
  · exact hr
  · exact h.procs q

theorem waiting_begin {w : World} (h : Waiting files file w) (hpath : files.path = some file) (p : Nat) (u : Option Update) :
    Waiting files file (w.begin p u).1 ∧ (w.begin p u).2 = .nothing := by
  unfold World.begin
  split
  · rw [h.same, hpath]
    exact ⟨h.put p _ (Or.inr ⟨u, [], rfl, List.nil_prefix⟩), rfl⟩
  · exact ⟨h, rfl⟩

/-- A system call: more of the file is read, or all of it was and is refused. -/
theorem waiting_call {w : World} (h : Waiting files file w) {d : State} (hparse : parse T (files.content file) = some d)
    (hversion : d.version > stateVersion) (p n : Nat) :
    Waiting files file (w.call T p n).1 ∧ ((w.call T p n).2 = .nothing ∨ (w.call T p n).2 = .failed) := by
  unfold World.call
  rcases h.procs p with hidle | ⟨u, got, hreading, more, hmore⟩
  · rw [hidle]
    exact ⟨h, Or.inl rfl⟩
  rw [hreading]
  dsimp only
  rw [h.same, ← hmore, List.drop_left]
  split
  · rename_i hend
    have hall : got = files.content file := by
      cases more with
      | nil => rw [← hmore, List.append_nil]
      | cons b more => cases hend
    rw [World.parsed, hall, hparse, h.same]
    dsimp only
    rw [if_pos hversion]
    exact ⟨h.put p _ (Or.inl rfl), Or.inr rfl⟩
  · refine ⟨h.put p _ (Or.inr ⟨u, _, rfl, ?_⟩), Or.inl rfl⟩
    rw [← hmore]
    exact (List.prefix_append_right_inj got).mpr (List.take_prefix _ _)

theorem waiting_next {w : World} (h : Waiting files file w) (hpath : files.path = some file) {d : State}
    (hparse : parse T (files.content file) = some d) (hversion : d.version > stateVersion) (m : Move) :
    Waiting files file ((World.machine T).next w m) ∧
      ((World.machine T).out w m = .nothing ∨ (World.machine T).out w m = .failed) := by
  cases m with
  | start p u =>
    obtain ⟨hnext, hquiet⟩ := waiting_begin h hpath p u
    exact ⟨hnext, Or.inl hquiet⟩
  | step p n => exact waiting_call h hparse hversion p n
  | kill p =>
    show Waiting files file (w.put p w.files (.idle, .nothing)).1 ∧ _
    rw [h.same]
    exact ⟨h.put p _ (Or.inl rfl), Or.inl rfl⟩

theorem refuses_of_parse {d : State} (hparse : parse T bytes = some d) (hversion : d.version > stateVersion) :
    Refuses T bytes := by
  intro files file hpath hcontent moves
  have hrun := (World.machine T).trace_induction
    (P := fun tr w => Waiting files file w ∧ ∀ e ∈ tr, e.2 = .nothing ∨ e.2 = .failed)
    ⟨⟨rfl, fun p => Or.inl rfl⟩, fun e he => by cases he⟩ (fun tr w m ⟨hw, hquiet⟩ _ => ?_)
    ((World.machine T).admissible_true ⟨files, ∅⟩ moves)
  · obtain ⟨hw, hquiet⟩ := hrun
    dsimp only
    rw [hw.same]
    exact ⟨⟨hpath, hcontent⟩, hquiet⟩
  · obtain ⟨hnext, hlast⟩ := waiting_next hw hpath (by rw [hcontent]; exact hparse) hversion m
    refine ⟨hnext, fun e he => ?_⟩
    rcases List.mem_append.mp he with he | he
    · exact hquiet e he
    · rw [List.mem_singleton.mp he]
      exact hlast

theorem call_end {w : World} {p n : Nat} {u : Option Update} {got : List UInt8} (hproc : w.proc p = .reading u file got)
    (hend : (w.files.content file).drop got.length = []) : w.call T p n = w.parsed T p u got := by
  unfold World.call
  rw [hproc]
  dsimp only
  rw [hend, List.take_nil, if_pos rfl]

theorem call_more {w : World} {p n : Nat} {u : Option Update} {got : List UInt8} (hproc : w.proc p = .reading u file got)
    (hmore : ((w.files.content file).drop got.length).take (n + 1) ≠ []) :
    w.call T p n = w.put p w.files
    (.reading u file (got ++ ((w.files.content file).drop got.length).take (n + 1)), .nothing) := by
  unfold World.call
  rw [hproc]
  dsimp only
  rw [if_neg hmore]

/-- What did not parse is moved aside, and its name is free. -/
theorem parsed_none {w : World} {p : Nat} {u : Option Update} {got : List UInt8} (hpath : w.files.path = some file)
    (hparse : parse T got = none) : (w.parsed T p u got).1.files.path = none := by
  unfold World.parsed
  rw [hparse]
  dsimp only
  rw [hpath]
  rfl

theorem movedAside (hpath : files.path = some file) (hparse : parse T (files.content file) = none) :
    ∃ moves, ((World.machine T).run ⟨files, ∅⟩ moves).files.path = none := by
  -- the file is opened, read in one piece if there is anything in it, and then at its end
  let opened : World := (World.put ⟨files, ∅⟩ 0 files (.reading none file [], .nothing)).1
  have hopened : (World.machine T).next ⟨files, ∅⟩ (.start 0 none) = opened := by
    show (World.begin ⟨files, ∅⟩ 0 none).1 = opened
    unfold World.begin
    rw [show World.proc ⟨files, ∅⟩ 0 = .idle from rfl]
    dsimp only
    rw [hpath]
  have hproc : opened.proc 0 = .reading none file [] := by rw [World.proc_put, if_pos rfl]
  by_cases hempty : files.content file = []
  · refine ⟨[.start 0 none, .step 0 0], ?_⟩
    rw [Machine.run_cons, Machine.run_cons, Machine.run_nil, hopened]
    show (opened.call T 0 0).1.files.path = none
    rw [call_end hproc hempty]
    exact parsed_none hpath (by rw [← hempty]; exact hparse)
  · refine ⟨[.start 0 none, .step 0 (files.content file).length, .step 0 0], ?_⟩
    have hchunk : (files.content file).take ((files.content file).length + 1) = files.content file :=
      List.take_of_length_le (Nat.le_succ _)
    have hread : (World.machine T).next opened (.step 0 (files.content file).length) =
        (opened.put 0 files (.reading none file (files.content file), .nothing)).1 := by
      show (opened.call T 0 _).1 = _
      rw [call_more hproc (by
        show (files.content file).take _ ≠ []
        rw [hchunk]
        exact hempty)]
      show (opened.put 0 files (.reading none file ((files.content file).take _), .nothing)).1 = _
      rw [hchunk]
    rw [Machine.run_cons, Machine.run_cons, Machine.run_cons, Machine.run_nil, hopened, hread]
    show (World.call T (opened.put 0 files (.reading none file (files.content file), .nothing)).1 0 0).1.files.path = none
    rw [call_end (by rw [World.proc_put, if_pos rfl]) (List.drop_length (l := files.content file))]
    exact parsed_none hpath hparse

/-- The document is left alone if and only if it is a record of the client's own schema. -/
theorem refuses_iff {j : Json} (hdecode : T.decode bytes = .ok j) (hnewer : Newer stateVersion j) :
    Refuses T bytes ↔ (State.fromJson j).isSome = true := by
  have hparse : parse T bytes = State.fromJson j := by
    unfold parse
    rw [hdecode]
  constructor
  · intro h
    by_contra hnone
    have hnone : State.fromJson j = none := by simpa using hnone
    let files : Files := ⟨fun _ => bytes, some 0, none, [], 1⟩
    have hpath : files.path = some 0 := rfl
    obtain ⟨moves, hfree⟩ := movedAside hpath (hparse.trans hnone)
    have hkept := (h files 0 rfl rfl moves).1.1
    rw [hfree] at hkept
    cases hkept
  · intro h
    obtain ⟨d, hd⟩ := Option.isSome_iff_exists.mp h
    exact refuses_of_parse (hparse.trans hd) (state_newer hnewer hd)

end

/-! ## The desktop client -/

/-- Its state is in memory while it runs. -/
structure Desktop where
  store : Option StoreData
  disk : Disk

inductive DesktopMove where
  /-- `Core::spawn`; `cli` is what the import reads, where the other client's file has a path. -/
  | spawn (readable : Bool) (env : SaveEnv) (cli : Option StoreInput)
  | mutate (i : StoreInput)
  | quit

inductive Answer where
  | nothing
  | spawned
  | refused (e : StoreError)
  | mutated (r : Except StoreError Bool)

section

variable {D : Type} (T : Codec Json D) (P : Option Dpapi)

namespace Desktop

/-- A mutation by the client that has `data`. -/
def mutate (data : StoreData) (disk : Disk) (i : StoreInput) : Desktop × Except StoreError Bool :=
  let r := Store.step T P ⟨data, disk⟩ i
  (⟨some r.1.data, r.1.disk⟩, r.2)

def spawn (s : Desktop) (readable : Bool) (env : SaveEnv) (cli : Option StoreInput) : Desktop × Answer :=
  match load T P s.disk readable env with
  | (disk, .error e) => (⟨none, disk⟩, .refused e)
  | (disk, .ok (data, _)) =>
    match cli with
    | none => (⟨some data, disk⟩, .spawned)
    -- an import that fails is passed over
    | some i => ((mutate T P data disk i).1, .spawned)

def step (s : Desktop) : DesktopMove → Desktop × Answer
  | .spawn readable env cli =>
    match s.store with
    | some _ => (s, .nothing)
    | none => s.spawn T P readable env cli
  | .mutate i =>
    match s.store with
    | none => (s, .nothing)
    | some data => ((mutate T P data s.disk i).1, .mutated (mutate T P data s.disk i).2)
  | .quit => (⟨none, s.disk⟩, .nothing)

def machine : Machine Desktop DesktopMove Answer where
  step := step T P

end Desktop

/-- Over every run of the client that starts with the document in the file, as plain text or
    protected: it stays there and the client does not come up. -/
def DesktopRefuses (bytes : List UInt8) : Prop :=
  ∀ (raw : List UInt8) (guarded : Bool) (tmp : Option (List UInt8)), unsealed P raw = .ok (bytes, guarded) →
    ∀ moves : List DesktopMove,
    ((Desktop.machine T P).run ⟨none, ⟨some raw, tmp⟩⟩ moves).disk.file = some raw ∧
      ∀ e ∈ (Desktop.machine T P).trace ⟨none, ⟨some raw, tmp⟩⟩ moves, e.2 = .nothing ∨ ∃ err, e.2 = .refused err

variable {T P} {bytes : List UInt8} {j : Json}

theorem read_newer (hdecode : T.decode bytes = .ok j) (hnewer : Newer storeVersion j) {raw : List UInt8} {guarded : Bool}
    (hraw : unsealed P raw = .ok (bytes, guarded)) : ∃ e, DesktopState.read T P raw = .error e := by
  unfold DesktopState.read
  split
  · exact ⟨_, rfl⟩
  rw [hraw]
  dsimp only
  split
  · exact ⟨_, rfl⟩
  rw [hdecode]
  dsimp only
  rcases hdata : StoreData.fromJson j with _ | data
  · exact ⟨_, rfl⟩
  · dsimp only
    rw [if_pos (storeData_newer hnewer hdata)]
    exact ⟨_, rfl⟩

theorem load_newer (hdecode : T.decode bytes = .ok j) (hnewer : Newer storeVersion j) {raw : List UInt8} {guarded : Bool}
    (hraw : unsealed P raw = .ok (bytes, guarded)) (tmp : Option (List UInt8)) (readable : Bool) (env : SaveEnv) :
    ∃ e, load T P ⟨some raw, tmp⟩ readable env = (⟨some raw, tmp⟩, .error e) := by
  unfold load
  dsimp only
  split
  · exact ⟨_, rfl⟩
  · obtain ⟨e, he⟩ := read_newer hdecode hnewer hraw
    rw [he]
    exact ⟨e, rfl⟩

theorem desktopRefuses (hdecode : T.decode bytes = .ok j) (hnewer : Newer storeVersion j) : DesktopRefuses T P bytes := by
  intro raw guarded tmp hraw moves
  have hrun := (Desktop.machine T P).trace_induction
    (P := fun tr s => s = ⟨none, ⟨some raw, tmp⟩⟩ ∧ ∀ e ∈ tr, e.2 = .nothing ∨ ∃ err, e.2 = .refused err)
    ⟨rfl, fun e he => by cases he⟩ (fun tr s m ⟨hs, hquiet⟩ _ => ?_)
    ((Desktop.machine T P).admissible_true ⟨none, ⟨some raw, tmp⟩⟩ moves)
  · obtain ⟨hs, hquiet⟩ := hrun
    rw [hs]
    exact ⟨rfl, hquiet⟩
  · subst hs
    have hstep : (Desktop.machine T P).next ⟨none, ⟨some raw, tmp⟩⟩ m = ⟨none, ⟨some raw, tmp⟩⟩ ∧
        ((Desktop.machine T P).out ⟨none, ⟨some raw, tmp⟩⟩ m = .nothing ∨
          ∃ err, (Desktop.machine T P).out ⟨none, ⟨some raw, tmp⟩⟩ m = .refused err) := by
      cases m with
      | spawn readable env cli =>
        obtain ⟨e, he⟩ := load_newer hdecode hnewer hraw tmp readable env
        have hspawn : Desktop.spawn T P ⟨none, ⟨some raw, tmp⟩⟩ readable env cli = (⟨none, ⟨some raw, tmp⟩⟩, .refused e) := by
          unfold Desktop.spawn
          dsimp only
          rw [he]
        exact ⟨congrArg Prod.fst hspawn, Or.inr ⟨e, congrArg Prod.snd hspawn⟩⟩
      | mutate i => exact ⟨rfl, Or.inl rfl⟩
      | quit => exact ⟨rfl, Or.inl rfl⟩
    refine ⟨hstep.1, fun e he => ?_⟩
    rcases List.mem_append.mp he with he | he
    · exact hquiet e he
    · rw [List.mem_singleton.mp he]
      exact hstep.2

end

/-! ## The import -/

section

variable {D : Type} (T : Codec Json D) (P : Option Dpapi)

/-- `import_v1` on the document, with an error or with nothing taken over. -/
def ImportsNothing (s : Store) (readable : Bool) (bytes : List UInt8) (keys : Nat → String) (env : SaveEnv) : Prop :=
  match Store.step T P s ⟨.importV1 (V1Read.ofBytes T readable bytes) keys, env⟩ with
  | (s', .error _) => s'.data = s.data
  | (s', .ok saved) => saved = false ∧ s'.data = s.data

/-- The state with the servers that the document names. -/
def withServers (data : StoreData) (v1 : V1State) (keys : Nat → String) : StoreData :=
  { data with servers := v1.urls.zipIdx.foldl (fun servers x => servers.insert (keys x.2) (v1.record x.1)) data.servers }

/-- The state cannot be written as it is, or the system fails the save on its way. -/
def Unsavable (data : StoreData) (env : SaveEnv) : Prop :=
  (∃ e, serialized T P data env = .error e) ∨
    match env.fault with
    | some .create | some (.write _) | some .sync | some .rename => True
    | _ => False

/-- Why an import passes over the document. -/
def PassedOver (s : Store) (readable : Bool) (bytes : List UInt8) (j : Json) (keys : Nat → String) (env : SaveEnv) : Prop :=
  readable = false ∨ bytes.length > maxStateBytes ∨ s.data.servers.isEmpty = false ∨
    ∀ v1, V1State.fromJson j = some v1 → v1.urls = [] ∨ Unsavable T P (withServers s.data v1 keys) env

variable {T P} {bytes : List UInt8} {j : Json} {s : Store} {readable : Bool} {keys : Nat → String} {env : SaveEnv}

theorem save_error_iff (disk : Disk) (data : StoreData) :
    (∃ e, (save T P disk data env).2 = .error e) ↔ Unsavable T P data env := by
  unfold save Unsavable
  rcases serialized T P data env with e | bytes
  · exact iff_of_true ⟨e, rfl⟩ (Or.inl ⟨e, rfl⟩)
  · dsimp only
    have hno : ¬∃ e, (Except.ok bytes : Except StoreError (List UInt8)) = .error e := nofun
    rw [or_iff_right hno]
    rcases env.fault with _ | fault
    · exact iff_of_false nofun not_false
    · cases fault with
      | createDir => exact iff_of_false nofun not_false
      | protect => exact iff_of_false nofun not_false
      | create => exact iff_of_true ⟨_, rfl⟩ trivial
      | write n => exact iff_of_true ⟨_, rfl⟩ trivial
      | sync => exact iff_of_true ⟨_, rfl⟩ trivial
      | rename => exact iff_of_true ⟨_, rfl⟩ trivial

/-- An import that has nothing to save. -/
theorem importsNothing_none (v1 : V1Read) (h : s.data.importV1 keys v1 = .ok none ∨ ∃ e, s.data.importV1 keys v1 = .error e)
    (hv1 : V1Read.ofBytes T readable bytes = v1) : ImportsNothing T P s readable bytes keys env := by
  unfold ImportsNothing Store.step
  rw [hv1]
  dsimp only [StoreData.next]
  rcases h with h | ⟨e, h⟩
  · rw [h]
    exact ⟨rfl, rfl⟩
  · rw [h]

/-- An import that takes servers over does nothing if and only if they cannot be saved. -/
theorem importsNothing_state {v1 : V1State} (hv1 : V1Read.ofBytes T readable bytes = .state v1)
    (h : s.data.importV1 keys (.state v1) = .ok (some (withServers s.data v1 keys))) :
    ImportsNothing T P s readable bytes keys env ↔ Unsavable T P (withServers s.data v1 keys) env := by
  have hsave : (∃ e, (save T P s.disk (withServers s.data v1 keys) env).2 = .error e) ↔
      Unsavable T P (withServers s.data v1 keys) env :=
    save_error_iff s.disk _
  unfold ImportsNothing Store.step
  rw [hv1]
  dsimp only [StoreData.next]
  rw [h]
  dsimp only
  rcases hr : save T P s.disk (withServers s.data v1 keys) env with ⟨disk, e | saved⟩
  · exact iff_of_true rfl (hsave.mp ⟨e, by rw [hr]⟩)
  · refine iff_of_false (fun hno => Bool.noConfusion hno.1) fun hno => ?_
    obtain ⟨e, he⟩ := hsave.mpr hno
    rw [hr] at he
    cases he

theorem importsNothing_iff (hdecode : T.decode bytes = .ok j) :
    ImportsNothing T P s readable bytes keys env ↔ PassedOver T P s readable bytes j keys env := by
  unfold PassedOver
  by_cases hread : readable = false ∨ bytes.length > maxStateBytes
  · refine iff_of_true (importsNothing_none .failed (Or.inr ⟨_, rfl⟩) ?_) (hread.imp_right Or.inl)
    unfold V1Read.ofBytes
    rw [if_pos hread]
  obtain ⟨hreadable, hlength⟩ := not_or.mp hread
  rw [or_iff_right hreadable, or_iff_right hlength]
  rcases hv1 : V1State.fromJson j with _ | v1
  · refine iff_of_true (importsNothing_none .corrupt (Or.inl rfl) ?_) (Or.inr nofun)
    unfold V1Read.ofBytes
    rw [if_neg hread, hdecode]
    dsimp only
    rw [hv1]
  have hof : V1Read.ofBytes T readable bytes = .state v1 := by
    unfold V1Read.ofBytes
    rw [if_neg hread, hdecode]
    dsimp only
    rw [hv1]
  by_cases hservers : s.data.servers.isEmpty = false
  · refine iff_of_true (importsNothing_none _ (Or.inl ?_) hof) (Or.inl hservers)
    unfold StoreData.importV1
    dsimp only
    rw [if_pos hservers]
  rw [or_iff_right hservers]
  by_cases hurls : v1.urls = []
  · refine iff_of_true (importsNothing_none _ (Or.inl ?_) hof) fun v1' h => ?_
    · unfold StoreData.importV1
      dsimp only
      rw [if_neg hservers, hurls, List.isEmpty_nil, if_pos rfl]
    · obtain rfl := Option.some.inj h
      exact Or.inl hurls
  · rw [importsNothing_state hof]
    · refine ⟨fun h v1' hv1' => ?_, fun h => (h v1 rfl).resolve_left hurls⟩
      obtain rfl := Option.some.inj hv1'
      exact Or.inr h
    · unfold StoreData.importV1
      dsimp only
      rw [if_neg hservers, if_neg (by rw [List.isEmpty_iff]; exact hurls)]
      rfl

variable (T P s readable keys env) in
/-- The document is kept, by every run of both clients, and not imported, if and only if it is a record
    of the older schema and the import has another reason to pass over it. -/
theorem newer_kept_iff (hdecode : T.decode bytes = .ok j) (hnewer : Newer stateVersion j) :
    (Refuses T bytes ∧ (Newer storeVersion j → DesktopRefuses T P bytes) ∧ ImportsNothing T P s readable bytes keys env) ↔
      (State.fromJson j).isSome = true ∧ PassedOver T P s readable bytes j keys env := by
  rw [refuses_iff hdecode hnewer, importsNothing_iff hdecode]
  constructor
  · rintro ⟨hshape, -, hpassed⟩
    exact ⟨hshape, hpassed⟩
  · rintro ⟨hshape, hpassed⟩
    exact ⟨hshape, fun hstore => desktopRefuses hdecode hstore, hpassed⟩

end

/-- A document of a newer client, with these servers and no grants. -/
def newerJson (version : Int) (servers : Json) : Json :=
  .obj [("version", .int version), ("servers", servers), ("grants", .obj [])]

def newerText (version servers : String) : List UInt8 :=
  ("\x7b\"version\":" ++ version ++ ",\"servers\":" ++ servers ++ ",\"grants\":\x7b\x7d\x7d").toUTF8.toList

/-- What the desktop client saves when it has taken over the server `https://h`. -/
def takenText : List UInt8 :=
  ("\x7b\"version\":3,\"servers\":\x7b\"aa\":\x7b\"url\":\"https://h\",\"displayName\":\"https://h\"," ++
    "\"rememberLogin\":false,\"shells\":\x7b\x7d\x7d\x7d\x7d").toUTF8.toList

/-- Three of them: no servers, no servers in an array, and a server that has no shells. -/
def newerCodec : Codec Json Unit where
  encode _ := takenText
  decode bytes :=
    if bytes = newerText "99" "\x7b\x7d" then .ok (newerJson 99 (.obj []))
    else if bytes = newerText "2" "[]" then .ok (newerJson 2 (.arr []))
    else if bytes = newerText "2" "\x7b\"https://h\":\x7b\x7d\x7d" then .ok (newerJson 2 (.obj [("https://h", .obj [])]))
    else .error ()

theorem newer_newerJson {known : UInt32} {version : Int} (servers : Json) (h : (known.toNat : Int) < version) :
    Newer known (newerJson version servers) :=
  ⟨_, version, rfl, rfl, h⟩

theorem newer_kept_iff_empty :
    Refuses newerCodec (newerText "99" "\x7b\x7d") ∧ DesktopRefuses newerCodec none (newerText "99" "\x7b\x7d") ∧
      ImportsNothing newerCodec none ⟨.default, ⟨none, none⟩⟩ true (newerText "99" "\x7b\x7d") (fun _ => "aa") ⟨0, none⟩ := by
  have hdecode : newerCodec.decode (newerText "99" "\x7b\x7d") = .ok (newerJson 99 (.obj [])) := if_pos rfl
  have hpassed : PassedOver newerCodec none ⟨.default, ⟨none, none⟩⟩ true (newerText "99" "\x7b\x7d") (newerJson 99 (.obj []))
      (fun _ => "aa") ⟨0, none⟩ := by
    refine Or.inr (Or.inr (Or.inr fun v1 hv1 => ?_))
    cases hv1
    exact Or.inl rfl
  have hkept := (newer_kept_iff newerCodec none ⟨.default, ⟨none, none⟩⟩ true (fun _ => "aa") ⟨0, none⟩ hdecode
    (newer_newerJson _ (by decide))).mpr ⟨rfl, hpassed⟩
  exact ⟨hkept.1, hkept.2.1 (newer_newerJson _ (by decide)), hkept.2.2⟩

theorem serialized_taken (data : StoreData) (h : (data.persisted.toJson).isSome = true) :
    serialized newerCodec none data ⟨0, none⟩ = .ok takenText := by
  obtain ⟨j, hj⟩ := Option.isSome_iff_exists.mp h
  have hlength : ¬ (newerCodec.encode j).length > maxStateBytes := by
    show ¬ takenText.length > maxStateBytes
    decide +kernel
  unfold serialized
  rw [if_neg nofun, hj]
  dsimp only
  rw [if_neg hlength]
  rfl

/-- The servers in another shape. -/
def reshaped : World := ⟨⟨fun _ => newerText "2" "[]", some 0, none, [], 1⟩, ∅⟩

/-- The servers have another shape: the file is moved aside and the load gives an empty state. They have
    the old shape: they are imported. -/
theorem newer_taken :
    ((World.machine newerCodec).run reshaped [.start 1 none, .step 1 99, .step 1 0]).files.path = none ∧
    ((World.machine newerCodec).run reshaped [.start 1 none, .step 1 99, .step 1 0]).files.backups = [0] ∧
    ¬ Refuses newerCodec (newerText "2" "[]") ∧
    ¬ ImportsNothing newerCodec none ⟨.default, ⟨none, none⟩⟩ true (newerText "2" "\x7b\"https://h\":\x7b\x7d\x7d")
    (fun _ => "aa")
      ⟨0, none⟩ := by
  have harray : newerCodec.decode (newerText "2" "[]") = .ok (newerJson 2 (.arr [])) := by
    have hne : newerText "2" "[]" ≠ newerText "99" "\x7b\x7d" := by decide +kernel
    exact (if_neg hne).trans (if_pos rfl)
  have hserver : newerCodec.decode (newerText "2" "\x7b\"https://h\":\x7b\x7d\x7d") =
      .ok (newerJson 2 (.obj [("https://h", .obj [])])) := by
    have hne : newerText "2" "\x7b\"https://h\":\x7b\x7d\x7d" ≠ newerText "99" "\x7b\x7d" := by decide +kernel
    have hne' : newerText "2" "\x7b\"https://h\":\x7b\x7d\x7d" ≠ newerText "2" "[]" := by decide +kernel
    exact (if_neg hne).trans ((if_neg hne').trans (if_pos rfl))
  refine ⟨by decide +kernel, by decide +kernel, ?_, ?_⟩
  · rw [refuses_iff harray (newer_newerJson _ (by decide))]
    decide
  · rw [importsNothing_iff hserver]
    rintro (hno | hno | hno | hno)
    · cases hno
    · exact absurd hno (by decide +kernel)
    · cases hno
    · rcases hno _ rfl with hno | ⟨e, hno⟩ | hno
      · cases hno
      · rw [serialized_taken _ rfl] at hno
        cases hno
      · exact hno

end Holdfast.Client.Cli.NewerFile
