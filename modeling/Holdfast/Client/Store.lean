/-
  Holdfast.Client.Store — the desktop client's state on disk (`Store` of
  `crates/client-core/src/store.rs`).

  A mutation changes a copy of the state, saves the copy and only then takes it for the
  state. A save writes JSON into a file beside the one in use and renames it over that one;
  it can fail at every step on the way (`Fault`). Logins are written only for the servers
  that are to remember them. A load reads the file back, drops the logins of older versions
  and replaces such a file at once.

  The text of a JSON value (serde_json) is a parameter, and so is the protection of the
  file's bytes where there is one (`Dpapi`).

  Proved:
  - `storeData_json`: the JSON of a state is read as that state.
  - `load_save`: what is saved is loaded.
  - `store_durable`: over every run of mutations, each with any fault, the file holds the
    state and a mutation that fails changes nothing.
  - `Journal`: what opens do to this record is what they do to `Client.Journal`'s.
-/

import Holdfast.Base.Json
import Holdfast.Base.Machine
import Holdfast.Client.Journal
import Holdfast.Protocol.Framing

namespace Holdfast.Client.DesktopState

open Holdfast.Base Holdfast.Base.Json Holdfast.Protocol

def storeVersion : UInt32 := 3
def maxStateBytes : Nat := 8 * 1024 * 1024

/-! ## The state -/

/-- A path is its text, or bytes that are no UTF-8. -/
inductive PathBuf where
  | text (s : String)
  | raw (bytes : List UInt8)
  deriving DecidableEq, Repr

structure ShellRecord where
  /-- Base64 resume token, the latest rotation. -/
  token : String
  idempotencyKey : Option String
  name : String
  lastAttachedAtMs : Int64
  deriving DecidableEq, Repr

structure PendingOpen where
  idempotencyKey : String
  name : String
  deriving DecidableEq, Repr

structure ServerRecord where
  url : String
  displayName : String
  username : Option String
  sshKeyPath : Option PathBuf
  rememberLogin : Bool
  /-- Base64 connection grant. -/
  grant : Option String
  shells : BTreeMap ShellRecord
  pendingOpens : List PendingOpen

structure StoreData where
  version : UInt32
  servers : BTreeMap ServerRecord

def StoreData.default : StoreData := ⟨storeVersion, ∅⟩

/-! ## As JSON -/

def unsigned32 : Json → Option UInt32
  | .int n => if 0 ≤ n ∧ n ≤ 4294967295 then some (UInt32.ofNat n.toNat) else none
  | _ => none

def signed64 : Json → Option Int64
  | .int n => if -2 ^ 63 ≤ n ∧ n < 2 ^ 63 then some (Int64.ofInt n) else none
  | _ => none

def PathBuf.toJson : PathBuf → Option Json
  | .text s => some (.str s)
  | .raw _ => none

def PathBuf.fromJson (j : Json) : Option PathBuf := (string j).map .text

def ShellRecord.toJson (s : ShellRecord) : Json :=
  .obj ([("token", .str s.token)] ++ skipNone "idempotencyKey" .str s.idempotencyKey ++
    [("name", .str s.name), ("lastAttachedAtMs", .int s.lastAttachedAtMs.toInt)])

def ShellRecord.fromJson (j : Json) : Option ShellRecord := do
  let f ← record ["token", "idempotencyKey", "name", "lastAttachedAtMs"] j
  let token ← required f "token" string
  let idempotencyKey ← defaulted f "idempotencyKey" none (nullable string)
  let name ← required f "name" string
  let lastAttachedAtMs ← defaulted f "lastAttachedAtMs" 0 signed64
  return ⟨token, idempotencyKey, name, lastAttachedAtMs⟩

def PendingOpen.toJson (p : PendingOpen) : Json :=
  .obj [("idempotencyKey", .str p.idempotencyKey), ("name", .str p.name)]

def PendingOpen.fromJson (j : Json) : Option PendingOpen := do
  let f ← record ["idempotencyKey", "name"] j
  let idempotencyKey ← required f "idempotencyKey" string
  let name ← required f "name" string
  return ⟨idempotencyKey, name⟩

/-- A path that is no text cannot be written. -/
def pathJson : Option PathBuf → Option (Option Json)
  | none => some none
  | some path => path.toJson.map some

def ServerRecord.toJson (s : ServerRecord) : Option Json := do
  let sshKeyPath ← pathJson s.sshKeyPath
  let shells ← ofMap (fun shell => some shell.toJson) s.shells
  return .obj ([("url", .str s.url), ("displayName", .str s.displayName)] ++ skipNone "username" .str s.username ++
    skipNone "sshKeyPath" id sshKeyPath ++ [("rememberLogin", .bool s.rememberLogin)] ++ skipNone "grant" .str s.grant ++
    [("shells", shells)] ++ skipEmpty "pendingOpens" PendingOpen.toJson s.pendingOpens)

def ServerRecord.fromJson (j : Json) : Option ServerRecord := do
  let f ← record ["url", "displayName", "username", "sshKeyPath", "rememberLogin", "grant", "shells", "pendingOpens"] j
  let url ← required f "url" string
  let displayName ← required f "displayName" string
  let username ← defaulted f "username" none (nullable string)
  let sshKeyPath ← defaulted f "sshKeyPath" none (nullable PathBuf.fromJson)
  let rememberLogin ← defaulted f "rememberLogin" false boolean
  let grant ← defaulted f "grant" none (nullable string)
  let shells ← defaulted f "shells" ∅ (toMap ShellRecord.fromJson)
  let pendingOpens ← defaulted f "pendingOpens" [] (toArray PendingOpen.fromJson)
  return ⟨url, displayName, username, sshKeyPath, rememberLogin, grant, shells, pendingOpens⟩

def StoreData.toJson (d : StoreData) : Option Json := do
  let servers ← ofMap ServerRecord.toJson d.servers
  return .obj [("version", .int d.version.toNat), ("servers", servers)]

def StoreData.fromJson (j : Json) : Option StoreData := do
  let f ← record ["version", "servers"] j
  let version ← required f "version" unsigned32
  let servers ← defaulted f "servers" ∅ (toMap ServerRecord.fromJson)
  return ⟨version, servers⟩

/-! ## Back again -/

theorem signed64_toInt (n : Int64) : signed64 (.int n.toInt) = some n := by
  have hlow := n.le_toInt
  have hhigh := n.toInt_lt
  rw [signed64, if_pos ⟨hlow, hhigh⟩, Int64.ofInt_toInt]

theorem unsigned32_toNat (n : UInt32) : unsigned32 (.int n.toNat) = some n := by
  have := n.toNat_lt
  rw [unsigned32, if_pos ⟨by omega, by omega⟩]
  simp

theorem pendingOpen_json (p : PendingOpen) : PendingOpen.fromJson p.toJson = some p := by
  simp [PendingOpen.fromJson, PendingOpen.toJson, record, required, find, string]

theorem shellRecord_json (s : ShellRecord) : ShellRecord.fromJson s.toJson = some s := by
  obtain ⟨token, key, name, last⟩ := s
  cases key <;>
    simp [ShellRecord.fromJson, ShellRecord.toJson, record, required, defaulted, find, string, nullable, skipNone, signed64_toInt]

theorem path_json {path : PathBuf} {j : Json} (h : path.toJson = some j) : nullable PathBuf.fromJson j = some (some path) := by
  cases path with
  | text s => cases h; rfl
  | raw bytes => cases h

theorem text_json {s : Option String} (v : String) (h : s = some v) : nullable string (.str v) = some s := by
  rw [h]
  rfl

/-- Each member is read from the one field that has its name. -/
theorem serverRecord_json {s : ServerRecord} {j : Json} (h : s.toJson = some j) : ServerRecord.fromJson j = some s := by
  obtain ⟨url, displayName, username, sshKeyPath, rememberLogin, grant, shells, pendingOpens⟩ := s
  simp only [ServerRecord.toJson, Option.bind_eq_bind, Option.bind_eq_some_iff, Option.pure_def, Option.some.injEq] at h
  obtain ⟨path, hpath, shellsJson, hshells, rfl⟩ := h
  have hshells := toMap_ofMap ShellRecord.fromJson (fun a j hj => by cases hj; exact shellRecord_json a) hshells
  have hnone : path = none → sshKeyPath = none := by
    rintro rfl
    cases sshKeyPath with
    | none => rfl
    | some p => cases p <;> cases hpath
  have hsome : ∀ j, path = some j → nullable PathBuf.fromJson j = some sshKeyPath := by
    rintro j rfl
    cases sshKeyPath with
    | none => cases hpath
    | some p =>
      obtain ⟨j', hj', hj⟩ := Option.map_eq_some_iff.mp hpath
      cases hj
      exact path_json hj'
  simp only [ServerRecord.fromJson, record, Option.bind_eq_bind, Option.bind_some, Option.pure_def]
  rw [required_named (j := .str url) (by simp), required_named (j := .str displayName) (by simp),
    defaulted_skipNone (a := username) (b := username) (w := .str) (by simp) id text_json,
    defaulted_skipNone (a := path) (b := sshKeyPath) (w := id) (by simp) hnone hsome,
    defaulted_named (j := .bool rememberLogin) (by simp),
    defaulted_skipNone (a := grant) (b := grant) (w := .str) (by simp) id text_json,
    defaulted_named (j := shellsJson) (by simp),
    defaulted_skipEmpty (l := pendingOpens) (w := PendingOpen.toJson) (by simp) pendingOpen_json, hshells]
  rfl

theorem storeData_json {d : StoreData} {j : Json} (h : d.toJson = some j) : StoreData.fromJson j = some d := by
  obtain ⟨version, servers⟩ := d
  simp only [StoreData.toJson, Option.bind_eq_bind, Option.bind_eq_some_iff, Option.pure_def, Option.some.injEq] at h
  obtain ⟨serversJson, hservers, rfl⟩ := h
  have hservers := toMap_ofMap ServerRecord.fromJson (fun a j hj => serverRecord_json hj) hservers
  simp [StoreData.fromJson, record, required, defaulted, find, unsigned32_toNat, hservers]

/-! ## Files -/

/-- The file of the state, and the one that is written beside it. -/
structure Disk where
  file : Option (List UInt8)
  tmp : Option (List UInt8)
  deriving DecidableEq, Repr

/-- The user's protection of data, where the system has it; `salt` is drawn for each call. -/
structure Dpapi where
  protect : (salt : Nat) → List UInt8 → List UInt8
  unprotect : List UInt8 → Option (List UInt8)

/-- `b"HOLDFAST-DPAPI-1\n"`. -/
def protectedHeader : List UInt8 := [72, 79, 76, 68, 70, 65, 83, 84, 45, 68, 80, 65, 80, 73, 45, 49, 10]

/-- Where a save fails. -/
inductive Fault where
  | createDir
  | protect
  | create
  /-- The bytes of the file that are written by then. -/
  | write (n : Nat)
  | sync
  | rename
  deriving DecidableEq, Repr

structure SaveEnv where
  salt : Nat
  fault : Option Fault
  deriving DecidableEq, Repr

inductive StoreError where
  | unreadable
  | tooLarge
  | locked
  | invalid
  | newer (version : UInt32)
  | unencrypted
  | unknownServer
  /-- A path in the state that is no text. -/
  | unwritable
  | fault (f : Fault)
  deriving DecidableEq, Repr

def ServerRecord.persisted (s : ServerRecord) : ServerRecord := if s.rememberLogin then s else { s with grant := none }

def StoreData.persisted (d : StoreData) : StoreData := { d with servers := d.servers.map fun _ s => s.persisted }

/-- Old versions never asked consent: their grants are not used even once. -/
def ServerRecord.loaded (migrated : Bool) (s : ServerRecord) : ServerRecord :=
  (if migrated then { s with rememberLogin := false } else s).persisted

section

variable {D : Type} (T : Codec Json D) (P : Option Dpapi)

def sealed (bytes : List UInt8) (env : SaveEnv) : Except StoreError (List UInt8) :=
  match P with
  | none => .ok bytes
  | some p =>
    if env.fault = some .protect then .error (.fault .protect)
    else
      let framed := protectedHeader ++ p.protect env.salt bytes
      if framed.length > maxStateBytes then .error .tooLarge else .ok framed

/-- The bytes of a save, before any file is touched. -/
def serialized (data : StoreData) (env : SaveEnv) : Except StoreError (List UInt8) :=
  if env.fault = some .createDir then .error (.fault .createDir)
  else
    match data.persisted.toJson with
    | none => .error .unwritable
    | some j => if (T.encode j).length > maxStateBytes then .error .tooLarge else sealed P (T.encode j) env

def save (disk : Disk) (data : StoreData) (env : SaveEnv) : Disk × Except StoreError Unit :=
  match serialized T P data env with
  | .error e => (disk, .error e)
  | .ok bytes =>
    match env.fault with
    | some .create => (disk, .error (.fault .create))
    | some (.write n) => ({ disk with tmp := some (bytes.take n) }, .error (.fault (.write n)))
    | some .sync => ({ disk with tmp := some bytes }, .error (.fault .sync))
    | some .rename => ({ disk with tmp := some bytes }, .error (.fault .rename))
    | _ => (⟨some bytes, none⟩, .ok ())

/-- The plain text of a file, and whether it was protected. -/
def unsealed (bytes : List UInt8) : Except StoreError (List UInt8 × Bool) :=
  match P with
  | none => .ok (bytes, false)
  | some p =>
    if protectedHeader.isPrefixOf bytes then
      match p.unprotect (bytes.drop protectedHeader.length) with
      | none => .error .locked
      | some plain => .ok (plain, true)
    else .ok (bytes, false)

/-- The state that a file holds, and whether an older version wrote it. -/
def read (bytes : List UInt8) : Except StoreError (StoreData × Bool) :=
  if bytes.length > maxStateBytes then .error .tooLarge
  else
    match unsealed P bytes with
    | .error e => .error e
    | .ok (plain, guarded) =>
      if plain.length > maxStateBytes then .error .tooLarge
      else
        match T.decode plain with
        | .error _ => .error .invalid
        | .ok j =>
          match StoreData.fromJson j with
          | none => .error .invalid
          | some data =>
            if data.version > storeVersion then .error (.newer data.version)
            else
              let migrated := decide (data.version < storeVersion)
              if P.isSome && !guarded && !migrated then .error .unencrypted
              else .ok (⟨storeVersion, data.servers.map fun _ s => s.loaded migrated⟩, migrated)

/-- `load`, with whether it has a warning to give; `readable` says that the file, if there
    is one, can be read. -/
def load (disk : Disk) (readable : Bool) (env : SaveEnv) : Disk × Except StoreError (StoreData × Bool) :=
  match disk.file with
  | none => (disk, .ok (.default, false))
  | some bytes =>
    if readable = false then (disk, .error .unreadable)
    else
      match read T P bytes with
      | .error e => (disk, .error e)
      | .ok (data, false) => (disk, .ok (data, false))
      | .ok (data, true) =>
        -- replace legacy plaintext before anyone can authenticate with it
        match save T P disk data env with
        | (disk, .error e) => (disk, .error e)
        | (disk, .ok ()) => (disk, .ok (data, true))

end

/-! ## Mutations -/

def base64Char (n : Nat) : Char :=
  "ABCDEFGHIJKLMNOPQRSTUVWXYZabcdefghijklmnopqrstuvwxyz0123456789+/".toList.getD n '='

def base64Chars : List UInt8 → List Char
  | [] => []
  | [a] => [base64Char (a.toNat / 4), base64Char (a.toNat % 4 * 16), '=', '=']
  | [a, b] =>
    [base64Char (a.toNat / 4), base64Char (a.toNat % 4 * 16 + b.toNat / 16), base64Char (b.toNat % 16 * 4), '=']
  | a :: b :: c :: rest =>
    [base64Char (a.toNat / 4), base64Char (a.toNat % 4 * 16 + b.toNat / 16), base64Char (b.toNat % 16 * 4 + c.toNat / 64),
      base64Char (c.toNat % 64)] ++ base64Chars rest

/-- The standard alphabet, padded. -/
def base64 (bytes : List UInt8) : String := String.ofList (base64Chars bytes)

namespace ServerRecord

def setGrant (s : ServerRecord) (grant : List UInt8) : ServerRecord :=
  if grant.isEmpty then s else { s with grant := some (base64 grant) }

def pushPendingOpen (s : ServerRecord) (keyHex name : String) : ServerRecord :=
  { s with pendingOpens := s.pendingOpens ++ [⟨keyHex, name⟩] }

def dropPendingOpen (s : ServerRecord) (keyHex : String) : ServerRecord :=
  { s with pendingOpens := s.pendingOpens.filter fun p => p.idempotencyKey != keyHex }

def resolvePendingOpen (s : ServerRecord) (keyHex shellHex : String) (token : List UInt8) (now : Int64) : ServerRecord :=
  let name := ((s.pendingOpens.find? fun p => p.idempotencyKey == keyHex).map (·.name)).getD "shell"
  { s.dropPendingOpen keyHex with shells := s.shells.insert shellHex ⟨base64 token, some keyHex, name, now⟩ }

def updateToken (s : ServerRecord) (shellHex : String) (token : List UInt8) (now : Int64) : ServerRecord :=
  { s with shells := s.shells.modify shellHex fun shell => { shell with token := base64 token, lastAttachedAtMs := now } }

def removeShell (s : ServerRecord) (shellHex : String) : ServerRecord := { s with shells := s.shells.erase shellHex }

def renameShell (s : ServerRecord) (shellHex name : String) : ServerRecord :=
  { s with shells := s.shells.modify shellHex fun shell => { shell with name := name } }

end ServerRecord

structure V1Shell where
  token : String
  name : String
  idempotencyKey : Option String
  deriving DecidableEq, Repr

structure V1State where
  servers : BTreeMap (BTreeMap V1Shell)
  grants : BTreeMap String

def V1Shell.fromJson (j : Json) : Option V1Shell := do
  let f ← record ["token", "name", "idempotency_key"] j
  let token ← required f "token" string
  let name ← required f "name" string
  let idempotencyKey ← defaulted f "idempotency_key" none (nullable string)
  return ⟨token, name, idempotencyKey⟩

def V1State.fromJson (j : Json) : Option V1State := do
  let f ← record ["servers", "grants"] j
  let servers ← defaulted f "servers" ∅ (toMap (toMap V1Shell.fromJson))
  let grants ← defaulted f "grants" ∅ (toMap string)
  return ⟨servers, grants⟩

inductive V1Read where
  | notFound
  | failed
  /-- No state of that version: none of this client's business. -/
  | corrupt
  | state (v1 : V1State)

/-- The file of the other client, as `import_v1` reads it; `readable` as in `load`. -/
def V1Read.ofBytes {D : Type} (T : Codec Json D) (readable : Bool) (bytes : List UInt8) : V1Read :=
  if readable = false ∨ bytes.length > maxStateBytes then .failed
  else
    match T.decode bytes with
    | .error _ => .corrupt
    | .ok j =>
      match V1State.fromJson j with
      | none => .corrupt
      | some v1 => .state v1

namespace V1State

def urls (v1 : V1State) : List String := (Std.ExtTreeSet.ofList (v1.servers.keys ++ v1.grants.keys) compare).toList

/-- The shells of a url; its grant stays behind. -/
def record (v1 : V1State) (url : String) : ServerRecord :=
  { url := url
    displayName := url
    username := none
    sshKeyPath := none
    rememberLogin := false
    grant := none
    shells := ((v1.servers[url]?).getD ∅).map fun _ shell => ⟨shell.token, shell.idempotencyKey, shell.name, 0⟩
    pendingOpens := [] }

end V1State

/-- `key` is the server's; where a server is added, what `new_server_key` draws. -/
inductive Mutation where
  | addServer (key : String) (record : ServerRecord)
  | removeServer (key : String)
  | setRememberLogin (key : String) (remember : Bool)
  | setGrant (key : String) (grant : List UInt8)
  | pushPendingOpen (key keyHex name : String)
  | resolvePendingOpen (key keyHex shellHex : String) (token : List UInt8) (now : Int64)
  | dropPendingOpen (key keyHex : String)
  | updateToken (key shellHex : String) (token : List UInt8) (now : Int64)
  | removeShell (key shellHex : String)
  | renameShell (key shellHex name : String)
  /-- The `i`-th url gets the key `keys i`. -/
  | importV1 (v1 : V1Read) (keys : Nat → String)

namespace StoreData

def mutateServer (d : StoreData) (key : String) (f : ServerRecord → ServerRecord) : Except StoreError (Option StoreData) :=
  match d.servers[key]? with
  | none => .error .unknownServer
  | some server => .ok (some { d with servers := d.servers.insert key (f server) })

def importV1 (d : StoreData) (keys : Nat → String) : V1Read → Except StoreError (Option StoreData)
  | .notFound => .ok none
  | .failed => .error .unreadable
  | .corrupt => .ok none
  | .state v1 =>
    if d.servers.isEmpty = false then .ok none
    else if v1.urls.isEmpty then .ok none
    else .ok (some { d with
      servers := v1.urls.zipIdx.foldl (fun servers x => servers.insert (keys x.2) (v1.record x.1)) d.servers })

/-- The changed copy that a mutation saves, or nothing if it has nothing to save. -/
def next (d : StoreData) : Mutation → Except StoreError (Option StoreData)
  | .addServer key record => .ok (some { d with servers := d.servers.insert key record })
  | .removeServer key => .ok (some { d with servers := d.servers.erase key })
  | .setRememberLogin key remember => d.mutateServer key fun s => { s with rememberLogin := remember }
  | .setGrant key grant => d.mutateServer key (·.setGrant grant)
  | .pushPendingOpen key keyHex name => d.mutateServer key (·.pushPendingOpen keyHex name)
  | .resolvePendingOpen key keyHex shellHex token now => d.mutateServer key (·.resolvePendingOpen keyHex shellHex token now)
  | .dropPendingOpen key keyHex => d.mutateServer key (·.dropPendingOpen keyHex)
  | .updateToken key shellHex token now => d.mutateServer key (·.updateToken shellHex token now)
  | .removeShell key shellHex => d.mutateServer key (·.removeShell shellHex)
  | .renameShell key shellHex name => d.mutateServer key (·.renameShell shellHex name)
  | .importV1 v1 keys => d.importV1 keys v1

end StoreData

/-- The state in memory is behind a lock that every mutation holds to its end. -/
structure Store where
  data : StoreData
  disk : Disk

structure StoreInput where
  mutation : Mutation
  env : SaveEnv

namespace Store

variable {D : Type} (T : Codec Json D) (P : Option Dpapi)

/-- The answer to a mutation that succeeds is whether there was something to save. -/
def step (s : Store) (i : StoreInput) : Store × Except StoreError Bool :=
  match s.data.next i.mutation with
  | .error e => (s, .error e)
  | .ok none => (s, .ok false)
  | .ok (some next) =>
    match save T P s.disk next i.env with
    | (disk, .error e) => ({ s with disk }, .error e)
    | (disk, .ok ()) => (⟨next, disk⟩, .ok true)

def machine : Machine Store StoreInput (Except StoreError Bool) where
  step := step T P

end Store

/-! ## What is saved is loaded -/

section

variable {D : Type} {T : Codec Json D} {P : Option Dpapi} {data : StoreData} {disk disk' : Disk} {env : SaveEnv}

theorem persisted_persisted (data : StoreData) : data.persisted.persisted = data.persisted := by
  obtain ⟨version, servers⟩ := data
  simp only [StoreData.persisted]
  congr 1
  refine BTreeMap.map_map servers _ _ _ fun _ s => ?_
  unfold ServerRecord.persisted
  cases h : s.rememberLogin <;> simp [h]

theorem persisted_default : StoreData.default.persisted = .default := by
  simp [StoreData.default, StoreData.persisted]

/-- The text of the state, as it is saved, is read again, and so is its protection. -/
def ReadsBack (T : Codec Json D) (P : Option Dpapi) (data : StoreData) (env : SaveEnv) : Prop :=
  ∀ j, data.persisted.toJson = some j → T.decode (T.encode j) = .ok j ∧
    ∀ p, P = some p → p.unprotect (p.protect env.salt (T.encode j)) = some (T.encode j)

theorem unsealed_sealed {plain bytes : List UInt8} (h : sealed P plain env = .ok bytes)
    (hback : ∀ p, P = some p → p.unprotect (p.protect env.salt plain) = some plain) (hle : plain.length ≤ maxStateBytes) :
    bytes.length ≤ maxStateBytes ∧ unsealed P bytes = .ok (plain, P.isSome) := by
  unfold sealed at h
  unfold unsealed
  cases P with
  | none =>
    cases h
    exact ⟨hle, rfl⟩
  | some p =>
    simp only at h
    split at h
    · cases h
    · split at h
      · cases h
      · rename_i hlen
        obtain rfl := Except.ok.inj h
        refine ⟨Nat.not_lt.mp hlen, ?_⟩
        have hprefix : protectedHeader.isPrefixOf (protectedHeader ++ p.protect env.salt plain) = true :=
          List.isPrefixOf_iff_prefix.mpr (List.prefix_append ..)
        simp only [if_pos hprefix, List.drop_left, hback p rfl, Option.isSome_some]

theorem read_serialized {bytes : List UInt8} (h : serialized T P data env = .ok bytes) (hversion : data.version = storeVersion)
    (hback : ReadsBack T P data env) : read T P bytes = .ok (data.persisted, false) := by
  unfold serialized at h
  split at h
  · cases h
  · split at h
    · cases h
    · rename_i j hj
      split at h
      · cases h
      · rename_i hlen
        obtain ⟨hdecode, hprotect⟩ := hback j hj
        obtain ⟨hle, hunsealed⟩ := unsealed_sealed h hprotect (Nat.not_lt.mp hlen)
        have hmap : (data.persisted.servers.map fun _ s => s.loaded false) = data.persisted.servers :=
          congrArg StoreData.servers (persisted_persisted data)
        have hv : data.persisted.version = storeVersion := hversion
        have hlt : ¬ data.persisted.version < storeVersion := by rw [hv]; decide
        have hgt : ¬ data.persisted.version > storeVersion := by rw [hv]; decide
        unfold read
        rw [if_neg (Nat.not_lt.mpr hle), hunsealed]
        simp only [if_neg hlen, hdecode, storeData_json hj, if_neg hgt, decide_eq_false hlt, Bool.not_false, Bool.and_true, hmap]
        rw [if_neg (by cases P <;> simp), ← hv]

theorem save_ok (h : save T P disk data env = (disk', .ok ())) :
    ∃ bytes, serialized T P data env = .ok bytes ∧ disk' = ⟨some bytes, none⟩ := by
  unfold save at h
  split at h
  · cases h
  · rename_i bytes hbytes
    split at h
    all_goals cases h
    exact ⟨bytes, hbytes, rfl⟩

/-- A save that fails may leave the other file behind, and no more. -/
theorem save_error {e : StoreError} (h : save T P disk data env = (disk', .error e)) : disk'.file = disk.file := by
  unfold save at h
  split at h
  · cases h; rfl
  · split at h
    all_goals cases h
    all_goals rfl

theorem load_save (h : save T P disk data env = (disk', .ok ())) (hversion : data.version = storeVersion)
    (hback : ReadsBack T P data env) (env' : SaveEnv) : load T P disk' true env' = (disk', .ok (data.persisted, false)) := by
  obtain ⟨bytes, hbytes, rfl⟩ := save_ok h
  simp [load, read_serialized hbytes hversion hback]

end

/-! ## The token of a shell -/

def StoreData.tokenOf (d : StoreData) (key shellHex : String) : Option String :=
  (d.servers[key]?).bind fun server => (server.shells[shellHex]?).map (·.token)

def ServerRecord.tokenOf (s : ServerRecord) (shellHex : String) : Option String := (s.shells[shellHex]?).map (·.token)

/-- The tokens a mutation has for the shell, when it succeeds. -/
def Mutation.tokens (key shellHex : String) : Mutation → List String
  | .addServer k record => if k = key then (record.tokenOf shellHex).toList else []
  | .resolvePendingOpen k _ shell token _ => if k = key ∧ shell = shellHex then [base64 token] else []
  | .updateToken k shell token _ => if k = key ∧ shell = shellHex then [base64 token] else []
  | .importV1 (.state v1) keys =>
    v1.urls.zipIdx.flatMap fun x => if keys x.2 = key then ((v1.record x.1).tokenOf shellHex).toList else []
  | _ => []

/-- The tokens that the successful mutations of a run had for it, in order. -/
def given (key shellHex : String) (tr : List (StoreInput × Except StoreError Bool)) : List String :=
  tr.flatMap fun x => match x.2 with
    | .ok true => x.1.mutation.tokens key shellHex
    | _ => []

section

variable {d d' : StoreData} {key shellHex t : String}

theorem tokenOf_insert (version : UInt32) (servers : BTreeMap ServerRecord) (k : String) (server : ServerRecord) :
    StoreData.tokenOf ⟨version, servers.insert k server⟩ key shellHex =
      if k = key then server.tokenOf shellHex else StoreData.tokenOf ⟨version, servers⟩ key shellHex := by
  unfold StoreData.tokenOf
  rw [BTreeMap.getElem?_insert]
  split <;> rfl

/-- The token of a shell after a mutation is the last one it had for the shell, or, if it
    had none, the one from before. -/
def Gives (d d' : StoreData) (key shellHex : String) (tokens : List String) : Prop :=
  ∀ t, d'.tokenOf key shellHex = some t → tokens.getLast? = some t ∨ tokens = [] ∧ d.tokenOf key shellHex = some t

/-- A change to one server that gives its shell `tokens`, or leaves it the token it had. -/
theorem mutateServer_gives {k : String} {f : ServerRecord → ServerRecord} {tokens : List String}
    (h : d.mutateServer k f = .ok (some d'))
    (hf : ∀ server, k = key → ∀ t, (f server).tokenOf shellHex = some t →
      tokens.getLast? = some t ∨ tokens = [] ∧ server.tokenOf shellHex = some t)
    (hother : k ≠ key → tokens = []) : Gives d d' key shellHex tokens := by
  intro t ht
  unfold StoreData.mutateServer at h
  split at h
  · cases h
  · rename_i server hserver
    obtain rfl := Option.some.inj (Except.ok.inj h)
    rw [tokenOf_insert] at ht
    by_cases e : k = key
    · subst e
      rw [if_pos rfl] at ht
      rcases hf server rfl t ht with hgiven | ⟨hnone, hkept⟩
      · exact .inl hgiven
      · refine .inr ⟨hnone, ?_⟩
        unfold StoreData.tokenOf
        rw [hserver]
        exact hkept
    · rw [if_neg e] at ht
      exact .inr ⟨hother e, ht⟩

theorem tokenOf_setShells (server : ServerRecord) (shells : BTreeMap ShellRecord) :
    ServerRecord.tokenOf { server with shells := shells } shellHex = (shells[shellHex]?).map (·.token) := rfl

theorem resolvePendingOpen_gives (server : ServerRecord) (keyHex shell : String) (token : List UInt8) (now : Int64)
    (h : (server.resolvePendingOpen keyHex shell token now).tokenOf shellHex = some t) :
    shell = shellHex ∧ t = base64 token ∨ shell ≠ shellHex ∧ server.tokenOf shellHex = some t := by
  unfold ServerRecord.resolvePendingOpen at h
  simp only at h
  rw [tokenOf_setShells, BTreeMap.getElem?_insert] at h
  split at h
  · rename_i e
    exact .inl ⟨e, (Option.some.inj h).symm⟩
  · rename_i e
    exact .inr ⟨e, h⟩

theorem updateToken_gives (server : ServerRecord) (shell : String) (token : List UInt8) (now : Int64)
    (h : (server.updateToken shell token now).tokenOf shellHex = some t) :
    shell = shellHex ∧ t = base64 token ∨ shell ≠ shellHex ∧ server.tokenOf shellHex = some t := by
  unfold ServerRecord.updateToken at h
  rw [tokenOf_setShells, BTreeMap.getElem?_modify] at h
  split at h
  · rename_i e
    rw [Option.map_map] at h
    obtain ⟨record, -, rfl⟩ := Option.map_eq_some_iff.mp h
    exact .inl ⟨e, rfl⟩
  · rename_i e
    exact .inr ⟨e, h⟩

theorem removeShell_gives (server : ServerRecord) (shell : String) (h : (server.removeShell shell).tokenOf shellHex = some t) :
    server.tokenOf shellHex = some t := by
  unfold ServerRecord.removeShell at h
  rw [tokenOf_setShells, BTreeMap.getElem?_erase] at h
  split at h
  · cases h
  · exact h

theorem renameShell_gives (server : ServerRecord) (shell name : String) :
    (server.renameShell shell name).tokenOf shellHex = server.tokenOf shellHex := by
  unfold ServerRecord.renameShell
  rw [tokenOf_setShells, BTreeMap.getElem?_modify]
  split
  · rw [Option.map_map]
    rfl
  · rfl

/-- A shell of a server that is imported; a later url that gets the same key takes its place. -/
theorem import_gives (v1 : V1State) (keys : Nat → String) (version : UInt32) (servers : BTreeMap ServerRecord)
    (urls : List (String × Nat)) :
    Gives ⟨version, servers⟩
    ⟨version, urls.foldl (fun servers x => servers.insert (keys x.2) (v1.record x.1)) servers⟩ key shellHex
      (urls.flatMap fun x => if keys x.2 = key then ((v1.record x.1).tokenOf shellHex).toList else []) := by
  induction urls using List.reverseRecOn with
  | nil => exact fun t ht => .inr ⟨rfl, ht⟩
  | append_singleton urls x ih =>
    intro t ht
    rw [List.foldl_append, List.foldl_cons, List.foldl_nil, tokenOf_insert] at ht
    rw [List.flatMap_append, List.flatMap_singleton]
    by_cases e : keys x.2 = key
    · rw [if_pos e] at ht ⊢
      rw [ht]
      simp
    · rw [if_neg e] at ht ⊢
      rw [List.append_nil]
      exact ih t ht

theorem next_gives {m : Mutation} (h : d.next m = .ok (some d')) : Gives d d' key shellHex (m.tokens key shellHex) := by
  cases m with
  | addServer k record =>
    intro t ht
    obtain rfl := Option.some.inj (Except.ok.inj h)
    rw [tokenOf_insert] at ht
    by_cases e : k = key
    · rw [if_pos e] at ht
      simp [Mutation.tokens, e, ht]
    · rw [if_neg e] at ht
      exact .inr ⟨if_neg e, ht⟩
  | removeServer k =>
    intro t ht
    obtain rfl := Option.some.inj (Except.ok.inj h)
    unfold StoreData.tokenOf at ht
    rw [BTreeMap.getElem?_erase] at ht
    split at ht
    · cases ht
    · exact .inr ⟨rfl, ht⟩
  | setRememberLogin k remember => exact mutateServer_gives h (fun _ _ _ ht => .inr ⟨rfl, ht⟩) fun _ => rfl
  | setGrant k grant =>
    refine mutateServer_gives h (fun server _ t ht => .inr ⟨rfl, ?_⟩) fun _ => rfl
    unfold ServerRecord.setGrant at ht
    split at ht <;> exact ht
  | pushPendingOpen k keyHex name => exact mutateServer_gives h (fun _ _ _ ht => .inr ⟨rfl, ht⟩) fun _ => rfl
  | dropPendingOpen k keyHex => exact mutateServer_gives h (fun _ _ _ ht => .inr ⟨rfl, ht⟩) fun _ => rfl
  | resolvePendingOpen k keyHex shell token now =>
    refine mutateServer_gives h (fun server e t ht => ?_) fun e => if_neg fun h => e h.1
    rcases resolvePendingOpen_gives server keyHex shell token now ht with ⟨hs, rfl⟩ | ⟨hs, ht⟩
    · simp [Mutation.tokens, e, hs]
    · simp [Mutation.tokens, e, hs, ht]
  | updateToken k shell token now =>
    refine mutateServer_gives h (fun server e t ht => ?_) fun e => if_neg fun h => e h.1
    rcases updateToken_gives server shell token now ht with ⟨hs, rfl⟩ | ⟨hs, ht⟩
    · simp [Mutation.tokens, e, hs]
    · simp [Mutation.tokens, e, hs, ht]
  | removeShell k shell =>
    exact mutateServer_gives h (fun server _ _ ht => .inr ⟨rfl, removeShell_gives server shell ht⟩) fun _ => rfl
  | renameShell k shell name =>
    refine mutateServer_gives h (fun server _ t ht => .inr ⟨rfl, ?_⟩) fun _ => rfl
    rw [renameShell_gives] at ht
    exact ht
  | importV1 v1 keys =>
    change d.importV1 keys v1 = _ at h
    unfold StoreData.importV1 at h
    split at h
    · cases h
    · cases h
    · cases h
    · rename_i v1
      split at h
      · cases h
      · split at h
        · cases h
        · obtain rfl := Option.some.inj (Except.ok.inj h)
          exact import_gives v1 keys d.version d.servers _

/-- Every mutation but an import has something to save, so that its success is a save. -/
theorem next_none {m : Mutation} (h : d.next m = .ok none) : ∃ v1 keys, m = .importV1 v1 keys := by
  have hmutate : ∀ key f, d.mutateServer key f ≠ .ok none := by
    intro key f h
    unfold StoreData.mutateServer at h
    split at h <;> cases h
  cases m with
  | importV1 v1 keys => exact ⟨v1, keys, rfl⟩
  | addServer | removeServer => cases h
  | setRememberLogin | setGrant | pushPendingOpen | resolvePendingOpen | dropPendingOpen | updateToken
    | removeShell | renameShell =>
    exact absurd h (hmutate _ _)

theorem mutateServer_version {k : String} {f : ServerRecord → ServerRecord} (h : d.mutateServer k f = .ok (some d')) :
    d'.version = d.version := by
  unfold StoreData.mutateServer at h
  split at h
  · cases h
  · obtain rfl := Option.some.inj (Except.ok.inj h)
    rfl

theorem next_version {m : Mutation} (h : d.next m = .ok (some d')) : d'.version = d.version := by
  cases m with
  | addServer | removeServer =>
    obtain rfl := Option.some.inj (Except.ok.inj h)
    rfl
  | importV1 v1 keys =>
    change d.importV1 keys v1 = _ at h
    unfold StoreData.importV1 at h
    repeat' split at h
    all_goals first
      | cases h; done
      | (obtain rfl := Option.some.inj (Except.ok.inj h); rfl)
  | setRememberLogin | setGrant | pushPendingOpen | resolvePendingOpen | dropPendingOpen | updateToken
    | removeShell | renameShell =>
    exact mutateServer_version h

end

/-! ## Runs -/

section

variable {D : Type} {T : Codec Json D} {P : Option Dpapi} {s : Store} {i : StoreInput}

/-- The store of a client that has started: what a load gave. -/
def Opened (T : Codec Json D) (P : Option Dpapi) (s : Store) : Prop :=
  ∃ disk readable env warned, load T P disk readable env = (s.disk, .ok (s.data, warned)) ∧
    (warned = true → ReadsBack T P s.data env)

/-- The file holds the state, without the logins that are not to be remembered. -/
structure Durable (T : Codec Json D) (P : Option Dpapi) (s : Store) : Prop where
  version : s.data.version = storeVersion
  reads : ∀ env, load T P s.disk true env = (s.disk, .ok (s.data.persisted, false))

/-- What serde_json and the protection promise of what the mutation saves. -/
def StoreInput.ReadsBack (T : Codec Json D) (P : Option Dpapi) (s : Store) (i : StoreInput) : Prop :=
  ∀ next, s.data.next i.mutation = .ok (some next) → DesktopState.ReadsBack T P next i.env

/-- A mutation is saved and takes effect, or it changes neither the state nor its file.
    What is written does not depend on the logins that are not to be remembered. -/
structure Kept (T : Codec Json D) (P : Option Dpapi) (s : Store) (i : StoreInput) (s' : Store) (answer : Except StoreError Bool) :
    Prop where
  failed : ∀ e, answer = .error e → s'.data = s.data ∧ s'.disk.file = s.disk.file
  idle : answer = .ok false → s' = s ∧ s.data.next i.mutation = .ok none ∧ ∃ v1 keys, i.mutation = .importV1 v1 keys
  saved : answer = .ok true → s.data.next i.mutation = .ok (some s'.data)
  written : ∀ next, s.data.next i.mutation = .ok (some next) → s'.disk = (save T P s.disk next.persisted i.env).1

theorem loaded_persisted (migrated : Bool) (server : ServerRecord) :
    (server.loaded migrated).persisted = server.loaded migrated := by
  unfold ServerRecord.loaded ServerRecord.persisted
  split <;> split <;> simp_all

/-- A state that was read has the current version and no login that is not to be remembered. -/
theorem read_loaded {bytes : List UInt8} {data : StoreData} {warned : Bool} (h : read T P bytes = .ok (data, warned)) :
    data.version = storeVersion ∧ data.persisted = data := by
  unfold read at h
  repeat' split at h
  any_goals cases h
  simp only at h
  split at h
  · cases h
  · cases h
    exact ⟨rfl, congrArg (StoreData.mk storeVersion) (BTreeMap.map_map _ _ _ _ fun _ server => loaded_persisted _ server)⟩

theorem Opened.durable (h : Opened T P s) : Durable T P s ∧ s.data.persisted = s.data := by
  obtain ⟨disk, readable, env, warned, hload, hback⟩ := h
  unfold load at hload
  split at hload
  · rename_i hfile
    injection hload with hdisk hdata
    obtain ⟨hdata, -⟩ := Prod.mk.inj (Except.ok.inj hdata)
    refine ⟨⟨congrArg StoreData.version hdata.symm, fun env' => ?_⟩, hdata ▸ persisted_default⟩
    rw [← hdata, ← hdisk, load, hfile, persisted_default]
  · rename_i bytes hfile
    split at hload
    · cases hload
    · split at hload
      · cases hload
      · rename_i data hread
        injection hload with hdisk hdata
        obtain ⟨rfl, rfl⟩ := Prod.mk.inj (Except.ok.inj hdata)
        obtain ⟨hversion, hpersisted⟩ := read_loaded hread
        refine ⟨⟨hversion, fun env' => ?_⟩, hpersisted⟩
        rw [← hdisk, load, hfile, hpersisted]
        simp [hread]
      · rename_i data hread
        split at hload
        · cases hload
        · rename_i disk' hsave
          injection hload with hdisk hdata
          obtain ⟨rfl, rfl⟩ := Prod.mk.inj (Except.ok.inj hdata)
          obtain ⟨hversion, hpersisted⟩ := read_loaded hread
          refine ⟨⟨hversion, fun env' => ?_⟩, hpersisted⟩
          rw [← hdisk]
          exact load_save hsave hversion (hback rfl) env'

/-- The logins that are not to be remembered never reach the disk. -/
theorem save_persisted (disk : Disk) (data : StoreData) (env : SaveEnv) :
    save T P disk data.persisted env = save T P disk data env := by
  have h : serialized T P data.persisted env = serialized T P data env := by
    unfold serialized
    rw [persisted_persisted]
  unfold save
  rw [h]

/-- A load looks at no other file. -/
theorem load_congr {disk disk' : Disk} {data : StoreData} {env : SaveEnv} (hfile : disk'.file = disk.file)
    (h : load T P disk true env = (disk, .ok (data, false))) : load T P disk' true env = (disk', .ok (data, false)) := by
  unfold load at h ⊢
  rw [hfile]
  cases hf : disk.file with
  | none =>
    simp only [hf] at h ⊢
    injection h with _ hdata
    rw [hdata]
  | some bytes =>
    simp only [hf] at h ⊢
    rw [if_neg (by decide)] at h ⊢
    split at h
    · cases h
    · injection h with _ hdata
      simp only [hdata]
    · split at h
      · cases h
      · cases h

/-- What a step does: it fails before the save, has nothing to save, fails in the save, or
    saves the changed copy and takes it. -/
theorem step_cases (s : Store) (i : StoreInput) :
    (∃ e, s.data.next i.mutation = .error e ∧ s.step T P i = (s, .error e)) ∨
    (s.data.next i.mutation = .ok none ∧ s.step T P i = (s, .ok false)) ∨
    ∃ next, s.data.next i.mutation = .ok (some next) ∧
      ((∃ disk e, save T P s.disk next i.env = (disk, .error e) ∧ s.step T P i = ({ s with disk }, .error e)) ∨
       ∃ disk, save T P s.disk next i.env = (disk, .ok ()) ∧ s.step T P i = (⟨next, disk⟩, .ok true)) := by
  unfold Store.step
  split
  · rename_i e hnext
    exact .inl ⟨e, hnext, rfl⟩
  · rename_i hnext
    exact .inr (.inl ⟨hnext, rfl⟩)
  · rename_i next hnext
    refine .inr (.inr ⟨next, hnext, ?_⟩)
    split
    · rename_i disk e hsave
      exact .inl ⟨disk, e, hsave, rfl⟩
    · rename_i disk hsave
      exact .inr ⟨disk, hsave, rfl⟩

theorem step_kept (s : Store) (i : StoreInput) : Kept T P s i (s.step T P i).1 (s.step T P i).2 := by
  obtain ⟨e, hnext, h⟩ | ⟨hnext, h⟩ | ⟨next, hnext, ⟨disk, e, hsave, h⟩ | ⟨disk, hsave, h⟩⟩ :=
    step_cases (T := T) (P := P) s i <;>
    rw [h]
  · constructor
    case failed => exact fun _ _ => ⟨rfl, rfl⟩
    case written => intro _ h; rw [hnext] at h; cases h
    all_goals (intro h; cases h)
  · constructor
    case idle => exact fun _ => ⟨rfl, hnext, next_none hnext⟩
    case written => intro _ h; rw [hnext] at h; cases h
    case failed => intro _ h; cases h
    case saved => intro h; cases h
  · constructor
    case failed => exact fun _ _ => ⟨rfl, save_error hsave⟩
    case written => intro _ h; cases hnext.symm.trans h; rw [save_persisted, hsave]
    all_goals (intro h; cases h)
  · constructor
    case saved => exact fun _ => hnext
    case written => intro _ h; cases hnext.symm.trans h; rw [save_persisted, hsave]
    case failed => intro _ h; cases h
    case idle => intro h; cases h

theorem step_durable (hs : Durable T P s) (hi : i.ReadsBack T P s) : Durable T P (s.step T P i).1 := by
  obtain ⟨e, hnext, h⟩ | ⟨hnext, h⟩ | ⟨next, hnext, ⟨disk, e, hsave, h⟩ | ⟨disk, hsave, h⟩⟩ :=
    step_cases (T := T) (P := P) s i <;>
    rw [h]
  · exact hs
  · exact hs
  · exact ⟨hs.version, fun env => load_congr (save_error hsave) (hs.reads env)⟩
  · have hversion : next.version = storeVersion := (next_version hnext).trans hs.version
    exact ⟨hversion, fun env => load_save hsave hversion (hi next hnext) env⟩

/-- The token that is stored for a shell is the last one there was for it. -/
def Latest (d₀ : StoreData) (tr : List (StoreInput × Except StoreError Bool)) (d : StoreData) : Prop :=
  ∀ key shellHex t, d.tokenOf key shellHex = some t →
    ((d₀.tokenOf key shellHex).toList ++ given key shellHex tr).getLast? = some t

theorem latest_step {d₀ : StoreData} {tr : List (StoreInput × Except StoreError Bool)}
    (h : Latest d₀ tr s.data) (i : StoreInput) :
    Latest d₀ (tr ++ [(i, (s.step T P i).2)]) (s.step T P i).1.data := by
  intro key shellHex t ht
  have hgiven : ∀ answer, given key shellHex (tr ++ [(i, answer)]) = given key shellHex tr ++ given key shellHex [(i, answer)] :=
    fun answer => List.flatMap_append
  rw [hgiven, ← List.append_assoc]
  obtain ⟨e, hnext, hstep⟩ | ⟨hnext, hstep⟩ | ⟨next, hnext, ⟨disk, e, hsave, hstep⟩ | ⟨disk, hsave, hstep⟩⟩ :=
    step_cases (T := T) (P := P) s i <;> rw [hstep] at ht ⊢
  · simpa [given] using h key shellHex t ht
  · simpa [given] using h key shellHex t ht
  · simpa [given] using h key shellHex t ht
  · have hlast : given key shellHex [(i, .ok true)] = i.mutation.tokens key shellHex := by simp [given]
    rw [hlast]
    rcases next_gives hnext t ht with hnew | ⟨hnone, hold⟩
    · rw [List.getLast?_append, hnew]
      rfl
    · rw [hnone, List.append_nil]
      exact h key shellHex t hold

/-- A mutation that succeeds is in the file, which is read as the state in memory without
    the logins that are not to be remembered; one that fails changes neither the state nor
    its file; and the token stored for a shell is the last it was given. -/
theorem store_durable (hs : Opened T P s) (is : List StoreInput)
    (hok : (Store.machine T P).Admissible (fun s i => i.ReadsBack T P s) s is) :
    (Store.machine T P).Admissible (fun s i => Kept T P s i (s.step T P i).1 (s.step T P i).2) s is ∧
    (∀ env, load T P ((Store.machine T P).run s is).disk true env =
      (((Store.machine T P).run s is).disk, .ok (((Store.machine T P).run s is).data.persisted, false))) ∧
    Latest s.data ((Store.machine T P).trace s is) ((Store.machine T P).run s is).data := by
  obtain ⟨hdurable, -⟩ := hs.durable
  refine ⟨?_, ?_, ?_⟩
  · exact (Store.machine T P).admissible_of_invariant (P := fun _ => True) (fun s i _ _ => ⟨step_kept s i, trivial⟩) trivial hok
  · have hend : Durable T P ((Store.machine T P).run s is) :=
      (Store.machine T P).run_induction (fun s i h hi => step_durable h hi) hdurable hok
    exact hend.reads
  · refine (Store.machine T P).trace_induction (P := fun tr s' => Latest s.data tr s'.data) ?_
      (fun tr s i h _ => latest_step h i) hok
    intro key shellHex t ht
    simp [given, ht]

/-- A state with one server, as it is in the file. -/
def oneServerJson : Json :=
  .obj [("version", .int 3), ("servers", .obj [("00", .obj [("url", .str "https://h"), ("displayName", .str "h"),
    ("rememberLogin", .bool false), ("shells", .obj [])])])]

def oneServerText : String :=
  "\x7b\"version\":3,\"servers\":\x7b\"00\":\x7b\"url\":\"https://h\",\"displayName\":\"h\"," ++
    "\"rememberLogin\":false,\"shells\":\x7b\x7d\x7d\x7d\x7d"

def oneServerCodec : Codec Json Unit := ⟨fun _ => oneServerText.toUTF8.toList, fun _ => .ok oneServerJson⟩

def addServer (fault : Option Fault) : StoreInput :=
  ⟨.addServer "00" ⟨"https://h", "h", none, none, false, some "Z3JhbnQ=", ∅, []⟩, ⟨0, fault⟩⟩

/-- A server is added, first without success; its login is not written. -/
theorem store_durable_added :
    let M := Store.machine oneServerCodec none
    let s : Store := ⟨.default, ⟨none, none⟩⟩
    let is := [addServer (some .createDir), addServer none]
    M.Admissible (fun s i => Kept oneServerCodec none s i (s.step oneServerCodec none i).1
      (s.step oneServerCodec none i).2) s is ∧
    (∀ env, load oneServerCodec none (M.run s is).disk true env = ((M.run s is).disk, .ok ((M.run s is).data.persisted, false))) ∧
    Latest s.data (M.trace s is) (M.run s is).data ∧ (M.run s is).data.servers["00"]?.map (·.url) = some "https://h" := by
  have h := store_durable (T := oneServerCodec) (P := none) (s := ⟨.default, ⟨none, none⟩⟩)
    ⟨⟨none, none⟩, true, ⟨0, none⟩, false, rfl, fun h => by cases h⟩ [addServer (some .createDir), addServer none] (by
      refine ⟨?_, ?_, trivial⟩
      all_goals
        intro next hnext j hj
        obtain rfl := Option.some.inj (Except.ok.inj hnext)
        exact ⟨congrArg Except.ok (Option.some.inj hj), fun p hp => by cases hp⟩)
  exact ⟨h.1, h.2.1, h.2.2, by decide +kernel⟩

end

/-! ## The journal -/

section

variable {r : Client.ServerRecord} {s : ServerRecord}

def PendingOpen.ofJournal (p : Client.PendingOpen) : PendingOpen := ⟨p.idempotencyKey, p.name⟩

def ShellRecord.ofJournal (shell : Client.ShellRecord) : ShellRecord :=
  ⟨base64 shell.token.bytes.toList, shell.idempotencyKey, shell.name, Int64.ofInt shell.lastAttachedAtMs⟩

/-- The journal of a server is the part of its record that opens touch. -/
structure Journal (r : Client.ServerRecord) (s : ServerRecord) : Prop where
  pending : s.pendingOpens = r.pendingOpens.map .ofJournal
  shells : ∀ hex, s.shells[hex]? = (r.shells.lookup hex).map .ofJournal

theorem Journal.pushPendingOpen (h : Journal r s) (keyHex name : String) :
    Journal (r.pushPendingOpen keyHex name) (s.pushPendingOpen keyHex name) where
  pending := by simp [ServerRecord.pushPendingOpen, Client.ServerRecord.pushPendingOpen, h.pending, PendingOpen.ofJournal]
  shells := h.shells

theorem Journal.dropPendingOpen (h : Journal r s) (keyHex : String) :
    Journal (r.dropPendingOpen keyHex) (s.dropPendingOpen keyHex) where
  pending := by
    simp only [ServerRecord.dropPendingOpen, Client.ServerRecord.dropPendingOpen, h.pending, List.filter_map]
    rfl
  shells := h.shells

theorem Journal.resolvePendingOpen (h : Journal r s) (keyHex shellHex : String) (token : Session.ResumeToken) (now : Int) :
    Journal (r.resolvePendingOpen keyHex shellHex token now)
      (s.resolvePendingOpen keyHex shellHex token.bytes.toList (Int64.ofInt now)) where
  pending := (h.dropPendingOpen keyHex).pending
  shells := by
    intro hex
    have hname : (s.pendingOpens.find? fun p => p.idempotencyKey == keyHex).map (·.name) =
        (r.pendingOpens.find? fun p => p.idempotencyKey == keyHex).map (·.name) := by
      rw [h.pending, List.find?_map, Option.map_map]
      rfl
    simp only [ServerRecord.resolvePendingOpen, Client.ServerRecord.resolvePendingOpen, BTreeMap.getElem?_insert, hname]
    by_cases e : shellHex = hex
    · subst e
      rw [if_pos rfl, AList.lookup_insert]
      rfl
    · rw [if_neg e, AList.lookup_insert_ne (Ne.symm e)]
      exact h.shells hex

theorem Journal.updateToken (h : Journal r s) (shellHex : String) (token : Session.ResumeToken) (now : Int) :
    Journal (r.updateToken shellHex token now) (s.updateToken shellHex token.bytes.toList (Int64.ofInt now)) where
  pending := h.pending
  shells := by
    intro hex
    simp only [ServerRecord.updateToken, Client.ServerRecord.updateToken, BTreeMap.getElem?_modify, Table.lookup_adjust]
    by_cases e : shellHex = hex
    · subst e
      rw [if_pos rfl, h.shells, Option.map_map, Option.map_map]
      congr 1
      funext shell
      simp [ShellRecord.ofJournal]
    · rw [if_neg e, h.shells, Option.map_map]
      congr 1
      funext shell
      simp [Ne.symm e]

theorem Journal.removeShell (h : Journal r s) (shellHex : String) :
    Journal (r.removeShell shellHex) (s.removeShell shellHex) where
  pending := h.pending
  shells := by
    intro hex
    simp only [ServerRecord.removeShell, Client.ServerRecord.removeShell, BTreeMap.getElem?_erase]
    by_cases e : shellHex = hex
    · subst e
      rw [if_pos rfl, AList.lookup_erase]
      rfl
    · rw [if_neg e, AList.lookup_erase_ne (Ne.symm e)]
      exact h.shells hex

end

end Holdfast.Client.DesktopState
