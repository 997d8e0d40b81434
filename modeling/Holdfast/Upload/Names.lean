/-
  Holdfast.Upload.Names — what an upload is called on disk (`sanitize_basename`, `hex_id`,
  `begin_with_id` and `finish_inner` of `crates/upload-store/src/lib.rs`).

  An upload's directory lies in the root under the upload's id in hexadecimal digits, and
  holds the partial and, once it is finished, the stored name, which is made from the name the
  client gave. `Directory` (`Upload.Writer`) has a slot for each of the two; here they are
  entries of a directory by their names (`Root`), which is the same as long as the two names
  differ (`view_put`).

  Proved:
  - `sanitizeBasename_safe` / `sanitizeBasename_idem`: the stored name is one component of
    safe characters, none of the names it must not be, and made of itself again.
  - `components_join`: a path joined with such a name has one component more.
  - `upload_names`: an upload goes to a directory that was not there, and to a name in it that
    was not there.
-/

import Holdfast.Base.HexText
import Holdfast.Terminal.Utf8
import Holdfast.Upload.Writer

namespace Holdfast.Upload

open Holdfast.Base Holdfast.Protocol Holdfast.Terminal HexText

abbrev Name := List Char

def storedBasenameBytesMax : Nat := 200

def partialName : Name := ['.', 'p', 'a', 'r', 't', 'i', 'a', 'l']

/-! ## The stored name -/

def safeChar (c : Char) : Bool := c.isAlphanum || c == '.' || c == '_' || c == '-'

/-- The loop of `sanitize_basename`: a run of other characters is one underscore. -/
def sanitizeLoop : List Char → Name → Bool → Name
  | [], result, _ => result
  | character :: rest, result, inReplacement =>
    if size result ≥ storedBasenameBytesMax then result
    else if safeChar character then sanitizeLoop rest (result ++ [character]) false
    else if inReplacement = false then sanitizeLoop rest (result ++ ['_']) true
    else sanitizeLoop rest result inReplacement

def sanitizeBasename (original : List Char) : Name :=
  let result := sanitizeLoop original [] false
  if result = [] ∨ result = ['.'] ∨ result = ['.', '.'] ∨ result = partialName then ['u', 'p', 'l', 'o', 'a', 'd']
  else result

theorem safeChar_toNat {c : Char} (h : safeChar c = true) : c.toNat ≤ 127 := by
  show c.val.toNat ≤ 127
  have hall : safeChar c = ((((decide (c.val ≥ 'A'.val ∧ c.val ≤ 'Z'.val) || c.val ≥ 'a'.val && c.val ≤ 'z'.val) ||
      c.val ≥ '0'.val && c.val ≤ '9'.val) || c == '.' || c == '_') || c == '-') := rfl
  simp only [hall, Bool.or_eq_true, Bool.and_eq_true, decide_eq_true_eq, beq_iff_eq, ge_iff_le, UInt32.le_iff_toNat_le] at h
  have hZ : 'Z'.val.toNat = 90 := rfl
  have hz : 'z'.val.toNat = 122 := rfl
  have h9 : '9'.val.toNat = 57 := rfl
  rcases h with ((((h | h) | h) | rfl) | rfl) | rfl
  · omega
  · omega
  · omega
  · decide
  · decide
  · decide

theorem safeChar_size {c : Char} (h : safeChar c = true) : c.utf8Size = 1 := by
  have hle : c.val ≤ 0x7f := UInt32.le_iff_toNat_le.mpr (safeChar_toNat h)
  simp [Char.utf8Size, hle]

theorem size_safe {text : List Char} (h : ∀ c ∈ text, safeChar c = true) : size text = text.length := by
  induction text with
  | nil => rfl
  | cons c text ih =>
    obtain ⟨hc, ht⟩ := List.forall_mem_cons.mp h
    rw [size_cons, safeChar_size hc, ih ht, List.length_cons]
    omega

theorem safeChar_underscore : safeChar '_' = true := rfl

/-- Safe characters stay safe, and a character is added only where there is room. -/
theorem sanitizeLoop_safe (text : List Char) : ∀ (result : Name) (inReplacement : Bool), (∀ c ∈ result, safeChar c = true) →
    size result ≤ storedBasenameBytesMax →
    (∀ c ∈ sanitizeLoop text result inReplacement, safeChar c = true) ∧
      size (sanitizeLoop text result inReplacement) ≤ storedBasenameBytesMax := by
  induction text with
  | nil => exact fun _ _ hsafe hsize => ⟨hsafe, hsize⟩
  | cons c text ih =>
    intro result inReplacement hsafe hsize
    have hadd : ∀ x : Char, safeChar x = true → size result < storedBasenameBytesMax →
        (∀ c ∈ result ++ [x], safeChar c = true) ∧ size (result ++ [x]) ≤ storedBasenameBytesMax := by
      intro x hx hroom
      refine ⟨List.forall_mem_append.mpr ⟨hsafe, by simpa using hx⟩, ?_⟩
      rw [size_append, size_cons, safeChar_size hx, size_nil]
      omega
    unfold sanitizeLoop
    split
    · exact ⟨hsafe, hsize⟩
    · split
      · rename_i hroom hc
        obtain ⟨h1, h2⟩ := hadd c hc (by omega)
        exact ih _ _ h1 h2
      · split
        · rename_i hroom _ _
          obtain ⟨h1, h2⟩ := hadd '_' safeChar_underscore (by omega)
          exact ih _ _ h1 h2
        · exact ih _ _ hsafe hsize

/-- Safe text is taken as it is, as far as there is room. -/
theorem sanitizeLoop_id {text : List Char} (htext : ∀ c ∈ text, safeChar c = true) : ∀ (result : Name) (inReplacement : Bool),
    (∀ c ∈ result, safeChar c = true) → size result + text.length ≤ storedBasenameBytesMax →
    sanitizeLoop text result inReplacement = result ++ text := by
  induction text with
  | nil => intro result _ _ _; rw [sanitizeLoop, List.append_nil]
  | cons c text ih =>
    intro result inReplacement hsafe hroom
    obtain ⟨hc, htext⟩ := List.forall_mem_cons.mp htext
    rw [List.length_cons] at hroom
    have hadd : ∀ x ∈ result ++ [c], safeChar x = true := List.forall_mem_append.mpr ⟨hsafe, by simpa using hc⟩
    rw [sanitizeLoop, if_neg (by omega), if_pos hc, ih htext _ _ hadd ?_, List.append_assoc]
    · rfl
    · rw [size_append, size_cons, safeChar_size hc, size_nil]
      omega

/-- A name the store can use for an upload: not empty, not too long, of safe characters, and
    neither a directory nor the partial. -/
structure Usable (name : Name) : Prop where
  nonempty : name ≠ []
  bounded : size name ≤ storedBasenameBytesMax
  safe : ∀ c ∈ name, safeChar c = true
  here : name ≠ ['.']
  parent : name ≠ ['.', '.']
  unlike : name ≠ partialName

theorem sanitizeBasename_safe (original : List Char) : Usable (sanitizeBasename original) := by
  obtain ⟨hsafe, hsize⟩ := sanitizeLoop_safe original [] false (by simp) (by simp [storedBasenameBytesMax])
  unfold sanitizeBasename
  dsimp only
  split
  · exact ⟨by simp, by decide, List.all_eq_true.mp rfl, by decide, by decide, by decide⟩
  · rename_i h
    simp only [not_or] at h
    exact ⟨h.1, hsize, hsafe, h.2.1, h.2.2.1, h.2.2.2⟩

theorem Usable.sanitized {name : Name} (h : Usable name) : sanitizeBasename name = name := by
  have hlen := size_safe h.safe
  have hbound := h.bounded
  have hloop : sanitizeLoop name [] false = name :=
    sanitizeLoop_id h.safe [] false (by simp) (by rw [size_nil]; omega)
  unfold sanitizeBasename
  dsimp only
  rw [hloop, if_neg]
  simp only [not_or]
  exact ⟨h.nonempty, h.here, h.parent, h.unlike⟩

theorem sanitizeBasename_idem (original : List Char) : sanitizeBasename (sanitizeBasename original) = sanitizeBasename original :=
  (sanitizeBasename_safe original).sanitized

/-! ## Paths -/

/-- `PathBuf::join`. -/
def join (path name : List UInt8) : List UInt8 :=
  if name.head? = some 0x2F then name
  else if path = [] ∨ path.getLast? = some 0x2F then path ++ name
  else path ++ 0x2F :: name

/-- The names on a path. -/
def components (path : List UInt8) : List (List UInt8) := (path.splitOn 0x2F).filter fun name => name ≠ [] ∧ name ≠ [0x2E]

theorem components_append (path name : List UInt8) : components (path ++ 0x2F :: name) = components path ++ components name := by
  rw [components, List.splitOn_append_cons_self, List.filter_append]
  rfl

theorem components_single {name : List UInt8} (h : 0x2F ∉ name) (hne : name ≠ []) (hdot : name ≠ [0x2E]) :
    components name = [name] := by
  rw [components, List.splitOn_eq_singleton h, List.filter_singleton, decide_eq_true ⟨hne, hdot⟩]
  rfl

theorem components_join {name : List UInt8} (path : List UInt8) (h : 0x2F ∉ name) (hne : name ≠ []) (hdot : name ≠ [0x2E]) :
    components (join path name) = components path ++ [name] := by
  have hone := components_single h hne hdot
  have hhead : name.head? ≠ some 0x2F := fun hh => h (List.mem_of_mem_head? hh)
  unfold join
  rw [if_neg hhead]
  split
  · rename_i hend
    rcases hend with rfl | hlast
    · rw [List.nil_append, hone]
      rfl
    · obtain ⟨dir, rfl⟩ := List.getLast?_eq_some_iff.mp hlast
      have hdir : components (dir ++ [0x2F]) = components dir := by
        rw [components_append]
        exact List.append_nil _
      rw [List.append_assoc, List.singleton_append, components_append, hone, hdir]
  · rw [components_append, hone]

/-- The name's bytes are one name on a path, neither the directory itself nor nothing. -/
def OneComponent (name : Name) : Prop := 0x2F ∉ Text.bytes name ∧ Text.bytes name ≠ [] ∧ Text.bytes name ≠ [0x2E]

theorem bytes_safe {text : Name} (h : ∀ c ∈ text, safeChar c = true) :
    Text.bytes text = text.map fun c => UInt8.ofNat c.toNat := by
  induction text with
  | nil => rfl
  | cons c text ih =>
    obtain ⟨hc, ht⟩ := List.forall_mem_cons.mp h
    have hone : String.utf8EncodeChar c = [UInt8.ofNat c.toNat] := String.utf8EncodeChar_eq_singleton (safeChar_size hc)
    show String.utf8EncodeChar c ++ Text.bytes text = _
    rw [hone, ih ht]
    rfl

theorem byte_safe {c d : Char} (hc : c.toNat ≤ 127) (hd : d.toNat ≤ 127)
    (h : UInt8.ofNat c.toNat = UInt8.ofNat d.toNat) : c = d := by
  have h' := congrArg UInt8.toNat h
  rw [UInt8.toNat_ofNat', UInt8.toNat_ofNat', Nat.mod_eq_of_lt (by omega), Nat.mod_eq_of_lt (by omega)] at h'
  exact Char.toNat_inj.mp h'

theorem oneComponent_safe {name : Name} (h : ∀ c ∈ name, safeChar c = true) (hne : name ≠ []) (hdot : name ≠ ['.']) :
    OneComponent name := by
  refine ⟨?_, ?_, ?_⟩
  · rw [bytes_safe h]
    intro hm
    obtain ⟨c, hc, hbyte⟩ := List.mem_map.mp hm
    have hslash : c = '/' := byte_safe (safeChar_toNat (h c hc)) (by decide) hbyte
    have hsafe := h c hc
    rw [hslash] at hsafe
    exact absurd hsafe (by decide)
  · rw [bytes_safe h]
    exact fun hn => hne (List.map_eq_nil_iff.mp hn)
  · rw [bytes_safe h]
    intro hd
    obtain ⟨c, rfl, hbyte⟩ := List.map_eq_singleton_iff.mp hd
    have hc := safeChar_toNat (h c List.mem_cons_self)
    exact hdot (by rw [show c = '.' from byte_safe hc (by decide) hbyte])

theorem Usable.oneComponent {name : Name} (h : Usable name) : OneComponent name :=
  oneComponent_safe h.safe h.nonempty h.here

theorem OneComponent.components_join {name : Name} (h : OneComponent name) (path : List UInt8) :
    components (join path (Text.bytes name)) = components path ++ [Text.bytes name] :=
  Upload.components_join path h.1 h.2.1 h.2.2

/-! ## The upload's directory -/

def hexId (id : UploadId) : Name := hexText id.toWire

def isHexId (name : Name) : Bool :=
  (Text.bytes name).length == 32 &&
    (Text.bytes name).all fun byte => (0x30 ≤ byte && byte ≤ 0x39) || (0x61 ≤ byte && byte ≤ 0x66)

theorem hexDigit_safe (n : Fin 16) :
    safeChar (hexDigit n) = true ∧ hexDigit n ≠ '.' ∧
      (let byte := UInt8.ofNat (hexDigit n).toNat
       (0x30 ≤ byte && byte ≤ 0x39) || (0x61 ≤ byte && byte ≤ 0x66)) = true := by
  revert n
  decide +kernel

theorem hexText_digits (bytes : List UInt8) : ∀ c ∈ hexText bytes, ∃ n : Fin 16, c = hexDigit n := by
  intro c hc
  obtain ⟨b, -, hb⟩ := List.mem_flatMap.mp hc
  have hlt := b.toNat_lt
  rcases List.mem_cons.mp hb with rfl | hb
  · exact ⟨⟨b.toNat / 16, by omega⟩, rfl⟩
  · exact ⟨⟨b.toNat % 16, by omega⟩, List.mem_singleton.mp hb⟩

theorem hexText_length (bytes : List UInt8) : (hexText bytes).length = 2 * bytes.length := by
  induction bytes with
  | nil => rfl
  | cons b bytes ih =>
    have hcons : hexText (b :: bytes) = hexByte b ++ hexText bytes := rfl
    rw [hcons, List.length_append, ih]
    simp only [hexByte, List.length_cons, List.length_nil]
    omega

theorem hexId_length (id : UploadId) : (hexId id).length = 32 := by
  rw [hexId, hexText_length]
  simp [UploadId.toWire, toWire]

theorem hexId_safe (id : UploadId) : ∀ c ∈ hexId id, safeChar c = true := by
  intro c hc
  obtain ⟨n, rfl⟩ := hexText_digits _ c hc
  exact (hexDigit_safe n).1

theorem hexId_oneComponent (id : UploadId) : OneComponent (hexId id) := by
  have hlen := hexId_length id
  refine oneComponent_safe (hexId_safe id) ?_ ?_
  · intro h
    rw [h] at hlen
    cases hlen
  · intro h
    rw [h] at hlen
    cases hlen

theorem isHexId_hexId (id : UploadId) : isHexId (hexId id) = true := by
  unfold isHexId
  rw [bytes_safe (hexId_safe id), List.length_map, hexId_length, List.all_map]
  simp only [beq_self_eq_true, Bool.true_and, List.all_eq_true]
  intro c hc
  obtain ⟨n, rfl⟩ := hexText_digits _ c hc
  exact (hexDigit_safe n).2.2

inductive Node where
  | file (data : List UInt8)
  | directory (entries : Name → Option (List UInt8))

/-- The entries of the store's root. -/
abbrev Root := Name → Option Node

def entry (root : Root) (directoryName name : Name) : Option (List UInt8) :=
  match root directoryName with
  | some (.directory entries) => entries name
  | _ => none

/-- The two names of an upload, in its directory. -/
def view (root : Root) (directoryName storedBasename : Name) : Directory :=
  ⟨match root directoryName with
    | some (.directory _) => true
    | _ => false,
    entry root directoryName partialName, entry root directoryName storedBasename⟩

def put (root : Root) (directoryName storedBasename : Name) (d : Directory) : Root :=
  Function.update root directoryName
    (if d.present then
      some (.directory (Function.update (Function.update (entry root directoryName) partialName d.partialFile)
        storedBasename d.stored))
    else none)

theorem view_put (root : Root) (directoryName : Name) {storedBasename : Name} (h : storedBasename ≠ partialName) {d : Directory}
    (hd : d.present = true) : view (put root directoryName storedBasename d) directoryName storedBasename = d := by
  obtain ⟨present, partialFile, stored⟩ := d
  obtain rfl : present = true := hd
  simp [view, put, entry, Function.update_of_ne h.symm]

theorem view_present {root : Root} {directoryName storedBasename : Name}
    (h : (view root directoryName storedBasename).partialFile.isSome = true) :
    (view root directoryName storedBasename).present = true := by
  simp only [view, entry] at h ⊢
  split
  · rfl
  · rename_i hno
    split at h
    · rename_i entries heq
      exact absurd heq (hno entries)
    · cases h

/-! ## Begin -/

/-- `PathBuf::to_str`. -/
def pathText (path : List UInt8) : Option String := String.fromUTF8? ⟨path.toArray⟩

def committedPath (rootPath : List UInt8) (directoryName storedBasename : Name) : List UInt8 :=
  join (join rootPath (Text.bytes directoryName)) (Text.bytes storedBasename)

/-- A writer with its names. -/
structure NamedWriter where
  rootPath : List UInt8
  directoryName : Name
  storedBasename : Name
  writer : UploadWriter

def NamedWriter.path (w : NamedWriter) : List UInt8 := committedPath w.rootPath w.directoryName w.storedBasename

/-- `mkdirat` refuses a name that is there. -/
def BeginEnv.within (rootPath : List UInt8) (root : Root) (metadata : BeginUpload) (env : BeginEnv) : BeginEnv :=
  { env with
    remotePath := pathText (committedPath rootPath (hexId env.uploadId) (sanitizeBasename metadata.originalName.toList))
    mkdir :=
      match env.mkdir with
      | some (.ok ()) => if (root (hexId env.uploadId)).isSome then none else some (.ok ())
      | answer => answer }

def BeginEnv.made (env : BeginEnv) : Bool :=
  match env.mkdir with
  | some (.ok ()) => true
  | _ => false

section
variable (rootPath : List UInt8) (maxFileBytes : UInt64) (metadata : BeginUpload) (maximumChunkBytes : UInt32)

def beginWithIdIn (root : Root) (env : BeginEnv) : Except StoreError NamedWriter × Root :=
  let directoryName := hexId env.uploadId
  let storedBasename := sanitizeBasename metadata.originalName.toList
  let env := env.within rootPath root metadata
  let r := beginWithId maxFileBytes metadata maximumChunkBytes env
  (r.1.map fun w => ⟨rootPath, directoryName, storedBasename, w⟩,
    if env.made then put root directoryName storedBasename r.2 else root)

def beginAttemptsIn (root : Root) : List BeginEnv → Except StoreError NamedWriter × Root
  | [] => (.error .idCollision, root)
  | env :: envs =>
    match beginWithIdIn rootPath maxFileBytes metadata maximumChunkBytes root env with
    | (.error .idCollision, root) => beginAttemptsIn root envs
    | r => r

def beginIn (root : Root) (envs : List BeginEnv) : Except StoreError NamedWriter × Root :=
  match validateBegin metadata maxFileBytes with
  | .error e => (.error (.invalidUpload e), root)
  | .ok () =>
    if maximumChunkBytes = 0 then (.error .invalidChunkLimit, root)
    else
      beginAttemptsIn rootPath maxFileBytes metadata (min maximumChunkBytes (UInt32.ofNat uploadChunkBytesMax)) root
        (envs.take randomIdAttempts)

variable {rootPath maxFileBytes metadata maximumChunkBytes}

theorem openNewWriter_names {env : BeginEnv} {w : UploadWriter} (h : (openNewWriter metadata maximumChunkBytes env).1 = .ok w) :
    w.remotePath = env.remotePath ∧ w.uploadId = env.uploadId := by
  unfold openNewWriter at h
  split at h
  · cases h
  · cases h
  · cases h
  · cases h
  · cases h
    exact ⟨rfl, rfl⟩

theorem openNewWriter_error {env : BeginEnv} {e : StoreError} (h : (openNewWriter metadata maximumChunkBytes env).1 = .error e) :
    ∃ msg, e = .ioError msg := by
  unfold openNewWriter at h
  split at h
  · exact ⟨_, (Except.error.inj h).symm⟩
  · exact ⟨_, (Except.error.inj h).symm⟩
  · exact ⟨_, (Except.error.inj h).symm⟩
  · exact ⟨_, (Except.error.inj h).symm⟩
  · cases h

theorem beginWithId_collision {env : BeginEnv}
    (h : (beginWithId maxFileBytes metadata maximumChunkBytes env).1 = .error .idCollision) : env.made = false := by
  unfold beginWithId at h
  split at h
  · cases h
  · split at h
    · rename_i hmkdir
      rw [BeginEnv.made, hmkdir]
    · cases h
    · dsimp only at h
      split at h
      · rename_i e he
        obtain ⟨msg, rfl⟩ := openNewWriter_error he
        cases h
      · cases h

theorem beginWithId_names {env : BeginEnv} {w : UploadWriter}
    (h : (beginWithId maxFileBytes metadata maximumChunkBytes env).1 = .ok w) :
    env.made = true ∧ w.remotePath = env.remotePath ∧ w.uploadId = env.uploadId := by
  unfold beginWithId at h
  split at h
  · cases h
  · split at h
    · cases h
    · cases h
    · rename_i hmkdir
      dsimp only at h
      split at h
      · cases h
      · rename_i w' hw
        cases h
        exact ⟨by rw [BeginEnv.made, hmkdir], openNewWriter_names hw⟩

theorem within_made {root : Root} {env : BeginEnv} (h : (env.within rootPath root metadata).made = true) :
    root (hexId env.uploadId) = none := by
  have hmkdir : (env.within rootPath root metadata).mkdir = some (.ok ()) := by
    unfold BeginEnv.made at h
    split at h
    · assumption
    · cases h
  dsimp only [BeginEnv.within] at hmkdir
  split at hmkdir
  · split at hmkdir
    · cases hmkdir
    · rename_i hfree
      exact Option.not_isSome_iff_eq_none.mp hfree
  · rename_i hother
    exact absurd hmkdir hother

/-- What a begun upload is called. -/
structure Named (rootPath : List UInt8) (root : Root) (metadata : BeginUpload) (w : NamedWriter) : Prop where
  rootPath : w.rootPath = rootPath
  directoryName : w.directoryName = hexId w.writer.uploadId
  storedBasename : w.storedBasename = sanitizeBasename metadata.originalName.toList
  remotePath : w.writer.remotePath = pathText w.path
  fresh : root w.directoryName = none

theorem beginWithIdIn_named {root : Root} {env : BeginEnv} {w : NamedWriter}
    (h : (beginWithIdIn rootPath maxFileBytes metadata maximumChunkBytes root env).1 = .ok w) :
    Named rootPath root metadata w := by
  unfold beginWithIdIn at h
  dsimp only at h
  cases hr : (beginWithId maxFileBytes metadata maximumChunkBytes (env.within rootPath root metadata)).1 with
  | error e =>
    rw [hr] at h
    cases h
  | ok writer =>
    rw [hr] at h
    cases h
    obtain ⟨hmade, hpath, hid⟩ := beginWithId_names hr
    have hid : writer.uploadId = env.uploadId := hid
    exact ⟨rfl, by rw [hid], rfl, hpath, within_made hmade⟩

/-- A name that was taken leaves the root as it was. -/
theorem beginWithIdIn_collision {root : Root} {env : BeginEnv}
    (h : (beginWithIdIn rootPath maxFileBytes metadata maximumChunkBytes root env).1 = .error .idCollision) :
    (beginWithIdIn rootPath maxFileBytes metadata maximumChunkBytes root env).2 = root := by
  unfold beginWithIdIn at h ⊢
  dsimp only at h ⊢
  have hmade : (env.within rootPath root metadata).made = false := by
    apply @beginWithId_collision maxFileBytes metadata maximumChunkBytes
    cases hr : (beginWithId maxFileBytes metadata maximumChunkBytes (env.within rootPath root metadata)).1 with
    | error e =>
      rw [hr] at h
      exact congrArg _ (Except.error.inj h)
    | ok writer =>
      rw [hr] at h
      cases h
  rw [hmade]
  rfl

theorem beginAttemptsIn_named {root : Root} {w : NamedWriter} : ∀ {envs : List BeginEnv},
    (beginAttemptsIn rootPath maxFileBytes metadata maximumChunkBytes root envs).1 = .ok w → Named rootPath root metadata w
  | [], h => by cases h
  | env :: envs, h => by
    unfold beginAttemptsIn at h
    split at h
    · rename_i root' hr
      have hroot := beginWithIdIn_collision (congrArg Prod.fst hr)
      rw [hr] at hroot
      obtain rfl : root' = root := hroot
      exact beginAttemptsIn_named h
    · exact beginWithIdIn_named h

theorem beginIn_named {root : Root} {envs : List BeginEnv} {w : NamedWriter}
    (h : (beginIn rootPath maxFileBytes metadata maximumChunkBytes root envs).1 = .ok w) : Named rootPath root metadata w := by
  unfold beginIn at h
  split at h
  · cases h
  · split at h
    · cases h
    · exact beginAttemptsIn_named h

/-- Begun in a root, an upload is what it is with the answers the root gives. -/
theorem beginIn_writer (root : Root) (envs : List BeginEnv) :
    (beginIn rootPath maxFileBytes metadata maximumChunkBytes root envs).1.map NamedWriter.writer =
      (beginWithChunkLimit maxFileBytes metadata maximumChunkBytes (envs.map (BeginEnv.within rootPath root metadata))).1 := by
  unfold beginIn beginWithChunkLimit
  cases validateBegin metadata maxFileBytes with
  | error e => rfl
  | ok u =>
    dsimp only
    split
    · rfl
    · rw [← List.map_take]
      generalize min maximumChunkBytes (UInt32.ofNat uploadChunkBytesMax) = maximum
      induction envs.take randomIdAttempts with
      | nil => rfl
      | cons env envs ih =>
        have hone : (beginWithIdIn rootPath maxFileBytes metadata maximum root env).1.map NamedWriter.writer =
            (beginWithId maxFileBytes metadata maximum (env.within rootPath root metadata)).1 := by
          unfold beginWithIdIn
          dsimp only
          cases (beginWithId maxFileBytes metadata maximum (env.within rootPath root metadata)).1 <;> rfl
        have hroot := @beginWithIdIn_collision rootPath maxFileBytes metadata maximum root env
        rw [List.map_cons]
        unfold beginAttemptsIn beginAttempts
        generalize beginWithIdIn rootPath maxFileBytes metadata maximum root env = named at hone hroot ⊢
        generalize beginWithId maxFileBytes metadata maximum (env.within rootPath root metadata) = plain at hone ⊢
        obtain ⟨r, root'⟩ := named
        obtain ⟨r', d⟩ := plain
        obtain rfl : r.map NamedWriter.writer = r' := hone
        cases r with
        | ok w => rfl
        | error e =>
          cases e with
          | idCollision =>
            obtain rfl : root' = root := hroot rfl
            exact ih
          | invalidRoot => rfl
          | invalidUpload e => rfl
          | invalidChunkLimit => rfl
          | lengthMismatch actual expected => rfl
          | checksumMismatch => rfl
          | ioError msg => rfl

end

/-! ## Chunks and the end -/

namespace NamedWriter

variable (sha256 : List UInt8 → List UInt8)

/-- A call on the upload's directory, if it is there. -/
def edit (w : NamedWriter) (root : Root) (d : Directory) : Root :=
  if (view root w.directoryName w.storedBasename).present then put root w.directoryName w.storedBasename d else root

def writeChunkIn (w : NamedWriter) (root : Root) (chunk : UploadChunk) (io : WriteOutcome) :
    Except StoreError Unit × NamedWriter × Root :=
  let r := w.writer.writeChunk (view root w.directoryName w.storedBasename) chunk io
  (r.1, { w with writer := r.2.1 }, w.edit root r.2.2)

/-- `linkat` needs the partial to be there. -/
def finishIn (w : NamedWriter) (root : Root) (uploadId : List UInt8) (owner : Option (Nat × Nat)) (env : FinishEnv) :
    Except StoreError CommittedUpload × NamedWriter × Root :=
  let d := view root w.directoryName w.storedBasename
  let env := { env with link := if d.partialFile.isSome then env.link else .error "ENOENT" }
  let r := w.writer.finishInner sha256 d uploadId owner env
  (r.1, { w with writer := r.2.1 }, w.edit root r.2.2)

/-- Chunks, each written to whatever the root holds by then. -/
def writes (w : NamedWriter) : List (Root × UploadChunk × WriteOutcome) → NamedWriter
  | [] => w
  | (root, chunk, io) :: steps => (w.writeChunkIn root chunk io).2.1.writes steps

theorem writeChunk_remotePath (w : UploadWriter) (d : Directory) (chunk : UploadChunk) (io : WriteOutcome) :
    (w.writeChunk d chunk io).2.1.remotePath = w.remotePath := by
  unfold UploadWriter.writeChunk
  split
  · rfl
  · split <;> rfl

/-- What chunks do not change. -/
theorem writes_names (steps : List (Root × UploadChunk × WriteOutcome)) : ∀ w : NamedWriter,
    (w.writes steps).path = w.path ∧ (w.writes steps).directoryName = w.directoryName ∧
      (w.writes steps).storedBasename = w.storedBasename ∧ (w.writes steps).writer.remotePath = w.writer.remotePath := by
  induction steps with
  | nil => exact fun _ => ⟨rfl, rfl, rfl, rfl⟩
  | cons step steps ih =>
    intro w
    obtain ⟨root, chunk, io⟩ := step
    obtain ⟨h1, h2, h3, h4⟩ := ih (w.writeChunkIn root chunk io).2.1
    exact ⟨h1, h2, h3, h4.trans (writeChunk_remotePath _ _ _ _)⟩

variable {sha256}

theorem settle_present (d : Directory) (owner : Option (Nat × Nat)) (env : FinishEnv) :
    (UploadWriter.settle d owner env).2.present = d.present := by
  unfold UploadWriter.settle
  split
  · rfl
  · dsimp only
    split <;> rfl

/-- What has gone through by the time an upload is committed. -/
theorem finishInner_ok {w : UploadWriter} {d : Directory} {uploadId : List UInt8} {owner : Option (Nat × Nat)} {env : FinishEnv}
    {c : CommittedUpload} (h : (w.finishInner sha256 d uploadId owner env).1 = .ok c) :
    env.link = .ok () ∧ d.stored = none ∧ c.remotePath = w.remotePath ∧
      (w.finishInner sha256 d uploadId owner env).2.2.stored = d.partialFile ∧
      (w.finishInner sha256 d uploadId owner env).2.2.present = d.present := by
  unfold UploadWriter.finishInner at h ⊢
  split at h
  · cases h
  · rename_i hid
    rw [if_neg hid]
    split at h
    · cases h
    · rename_i hlen
      rw [if_neg hlen]
      split at h
      · cases h
      · rename_i hsha
        rw [if_neg hsha]
        split at h
        · cases h
        · cases h
        · cases hlink : env.link with
          | error e =>
            rw [hlink] at h
            cases h
          | ok u =>
            cases hstored : d.stored with
            | some data =>
              simp only [UploadWriter.link, hlink, hstored, Option.isSome_some, if_true] at h
              cases h
            | none =>
              simp only [UploadWriter.link, hlink, hstored, Option.isSome_none, Bool.false_eq_true, if_false] at h ⊢
              have hs := UploadWriter.settle_spec { d with stored := d.partialFile } owner env
              have hp := settle_present { d with stored := d.partialFile } owner env
              generalize UploadWriter.settle { d with stored := d.partialFile } owner env = r at h hs hp ⊢
              obtain ⟨res, d'⟩ := r
              cases res with
              | error e => cases h
              | ok u =>
                cases h
                exact ⟨trivial, trivial, rfl, hs.1, hp⟩

/-- The stored name is taken only where it was free. -/
theorem finishIn_ok {w : NamedWriter} (hw : w.storedBasename ≠ partialName) {root : Root} {uploadId : List UInt8}
    {owner : Option (Nat × Nat)} {env : FinishEnv} {c : CommittedUpload}
    (h : (w.finishIn sha256 root uploadId owner env).1 = .ok c) :
    entry root w.directoryName w.storedBasename = none ∧
      (entry (w.finishIn sha256 root uploadId owner env).2.2 w.directoryName w.storedBasename).isSome = true ∧
      c.remotePath = w.writer.remotePath := by
  obtain ⟨hlink, hstored, hpath, hstored', hpresent⟩ := finishInner_ok h
  have hpartial : (view root w.directoryName w.storedBasename).partialFile.isSome = true := by
    by_contra hno
    rw [Bool.not_eq_true] at hno
    rw [hno] at hlink
    cases hlink
  have hthere := view_present hpartial
  refine ⟨hstored, ?_, hpath⟩
  unfold finishIn edit
  dsimp only
  rw [if_pos hthere]
  have hview := view_put root w.directoryName hw (hpresent.trans hthere)
  have hentry := congrArg Directory.stored hview
  rw [hstored'] at hentry
  exact (congrArg Option.isSome hentry).trans hpartial

end NamedWriter

/-- A stored name is one usable component, whatever name the client gave. A begun upload has a
    directory that was not in the root, and its chunks written, in whatever the root has become,
    it is committed to a name that was not in this directory, under the path it says. -/
theorem upload_names (sha256 : List UInt8 → List UInt8) :
    (∀ original : List Char, Usable (sanitizeBasename original) ∧ OneComponent (sanitizeBasename original) ∧
      sanitizeBasename (sanitizeBasename original) = sanitizeBasename original) ∧
    ∀ (rootPath : List UInt8) (maxFileBytes : UInt64) (metadata : BeginUpload) (maximumChunkBytes : UInt32) (root : Root)
      (envs : List BeginEnv) (w : NamedWriter),
      (beginIn rootPath maxFileBytes metadata maximumChunkBytes root envs).1 = .ok w →
      w.storedBasename = sanitizeBasename metadata.originalName.toList ∧ isHexId w.directoryName = true ∧
      root w.directoryName = none ∧
      components w.path = components rootPath ++ [Text.bytes w.directoryName, Text.bytes w.storedBasename] ∧
      ∀ (steps : List (Root × UploadChunk × WriteOutcome)) (later : Root) (uploadId : List UInt8) (owner : Option (Nat × Nat))
        (env : FinishEnv) (c : CommittedUpload),
        ((w.writes steps).finishIn sha256 later uploadId owner env).1 = .ok c →
        entry later w.directoryName w.storedBasename = none ∧
        (entry ((w.writes steps).finishIn sha256 later uploadId owner env).2.2 w.directoryName w.storedBasename).isSome = true ∧
        c.remotePath = pathText w.path := by
  constructor
  · intro original
    have husable := sanitizeBasename_safe original
    exact ⟨husable, husable.oneComponent, husable.sanitized⟩
  · intro rootPath maxFileBytes metadata maximumChunkBytes root envs w h
    have hnamed := beginIn_named h
    have husable : Usable w.storedBasename := hnamed.storedBasename ▸ sanitizeBasename_safe _
    have hdirectory : OneComponent w.directoryName := hnamed.directoryName ▸ hexId_oneComponent _
    refine ⟨hnamed.storedBasename, hnamed.directoryName ▸ isHexId_hexId _, hnamed.fresh, ?_, ?_⟩
    · rw [NamedWriter.path, committedPath, husable.oneComponent.components_join, hdirectory.components_join, hnamed.rootPath,
        List.append_assoc]
      rfl
    · intro steps later uploadId owner env c hc
      obtain ⟨-, hdir, hstored, hremote⟩ := NamedWriter.writes_names steps w
      obtain ⟨hfree, htaken, hpath⟩ := NamedWriter.finishIn_ok (hstored.symm ▸ husable.unlike) hc
      rw [hdir, hstored] at hfree htaken
      exact ⟨hfree, htaken, hpath.trans (hremote.trans hnamed.remotePath)⟩

/-- The SHA-256 of no bytes. -/
def emptyDigest : List UInt8 :=
  [0xE3, 0xB0, 0xC4, 0x42, 0x98, 0xFC, 0x1C, 0x14, 0x9A, 0xFB, 0xF4, 0xC8, 0x99, 0x6F, 0xB9, 0x24,
    0x27, 0xAE, 0x41, 0xE4, 0x64, 0x9B, 0x93, 0x4C, 0xA4, 0x95, 0x99, 0x1B, 0x78, 0x52, 0xB8, 0x55]

/-- An empty file under a name with a separator in it, in an empty root. -/
def emptyUpload : BeginUpload := ⟨"a/b", 0, emptyDigest⟩

def smoothBegin : BeginEnv :=
  ⟨⟨Vector.replicate 16 7⟩, none, some (.ok ()), .ok (), .ok (), .ok (), .ok (), true, true⟩

def smoothFinish : FinishEnv := ⟨.ok (), .ok (), .ok (), .ok (), .ok (), .ok (), .ok ()⟩

theorem upload_names_empty : ∃ (w : NamedWriter) (root : Root) (c : CommittedUpload),
    beginIn [0x2F, 0x75] 10 emptyUpload 10 (fun _ => none) [smoothBegin] = (.ok w, root) ∧
    (w.finishIn (fun _ => emptyDigest) root (List.replicate 16 7) none smoothFinish).1 = .ok c ∧
    w.storedBasename = sanitizeBasename ['a', '/', 'b'] ∧ sanitizeBasename ['a', '/', 'b'] = ['a', '_', 'b'] ∧
    components w.path = components [0x2F, 0x75] ++ [Text.bytes w.directoryName, Text.bytes w.storedBasename] ∧
    entry root w.directoryName w.storedBasename = none ∧ c.remotePath = pathText w.path := by
  have hbegin : ∃ w root, beginIn [0x2F, 0x75] 10 emptyUpload 10 (fun _ => none) [smoothBegin] = (.ok w, root) ∧
      ∃ c, (w.finishIn (fun _ => emptyDigest) root (List.replicate 16 7) none smoothFinish).1 = .ok c :=
    ⟨_, _, rfl, _, rfl⟩
  obtain ⟨w, root, hw, c, hc⟩ := hbegin
  obtain ⟨hstored, -, -, hpath, hfinish⟩ := (upload_names fun _ => emptyDigest).2 _ _ _ _ _ _ w (congrArg Prod.fst hw)
  obtain ⟨hfree, -, hremote⟩ := hfinish [] root _ none smoothFinish c hc
  exact ⟨w, root, c, hw, hc, hstored, by decide +kernel, hpath, hfree, hremote⟩

end Holdfast.Upload
