/-
  Holdfast.Session.Launch — the command line that starts a shell (`build_launch` of
  `crates/launch/src/lib.rs`).

  A launch is nested: prlimit runs the rest of its line, which may be setpriv running the
  rest of its own, which may be env. `interpret` has each wrapper take its options off the
  line by its documented grammar and go on with what is left; what is left of the last is
  what gets executed. A line is words of text. The wrappers are taken to succeed: what they
  do where they may not switch or raise a limit is theirs.

  Proved (`launch_preserved_iff`): what gets executed is the command asked for, with its
  arguments, as the account, exactly if `Plain`: env is not handed a command with a `=` in
  it, and the daemon's own account, to which nothing is switched, has the daemon's groups.
  Such a command is an assignment to env, and the next word is the command
  (`launch_assignment`).
-/

import Holdfast.Base.GetOpt

namespace Holdfast.Session.Launches

open Holdfast.Base.GetOpt

/-! ## The line -/

inductive LaunchError where
  | forbidden
  /-- "shell process and open-file limits must be greater than zero" -/
  | zeroLimits
  /-- "shell resource limits require {PRLIMIT}, but it is not present" -/
  | noPrlimit
  /-- "account lookup failed: {e}" -/
  | lookupFailed (e : String)
  /-- "privilege drop requested for account {name:?} but {SETPRIV} is not present" -/
  | noSetpriv (name : Word)
  deriving DecidableEq, Repr

structure ShellResourceLimits where
  maxProcesses : Nat
  maxOpenFiles : Nat
  maxCoreBytes : Nat
  deriving DecidableEq, Repr

def setpriv : Word := "/usr/bin/setpriv".toList
def prlimit : Word := "/usr/bin/prlimit".toList
def env : Word := "/usr/bin/env".toList
def defaultShell : Word := "/bin/bash".toList

structure AccountIds where
  uid : Nat
  gid : Nat
  deriving DecidableEq, Repr

structure Launch where
  program : Word
  args : List Word
  deriving DecidableEq, Repr

structure Identity where
  uid : Nat
  gid : Nat
  groups : List Nat
  deriving DecidableEq, Repr

/-- What the launching process finds around it. -/
structure Host where
  exists? : Word → Bool
  var : Word → Option Word
  /-- `getpwnam`. -/
  fromName : Word → Except String (Option AccountIds)
  own : Identity
  /-- `initgroups` for the user with that uid; two names that share a uid are not told apart. -/
  initgroups : Nat → Nat → List Nat

variable (H : Host)

def number (n : Nat) : Word := Nat.toDigits 10 n

def localeEnv : List Word :=
  let kept := ["LANG".toList, "LC_ALL".toList, "LC_CTYPE".toList].filterMap fun key =>
    (H.var key).map fun value => key ++ '=' :: value
  if kept.isEmpty then ["LANG=C.UTF-8".toList] else kept

def setprivWrap (ids : AccountIds) (locale : List Word) (program : Word) (args : List Word) : Launch :=
  ⟨setpriv, ["--reuid".toList, number ids.uid, "--regid".toList, number ids.gid, "--init-groups".toList, "--inh-caps".toList,
    "-all".toList, "--ambient-caps".toList, "-all".toList, "--reset-env".toList, "--".toList] ++
    ((if locale.isEmpty then [] else env :: locale) ++ program :: args)⟩

/-- `--nproc={0}:{0}` and its like. -/
def limitOption (resource : Word) (n : Nat) : Word := '-' :: '-' :: (resource ++ '=' :: (number n ++ ':' :: number n))

def prlimitWrap (limits : ShellResourceLimits) (launch : Launch) : Launch :=
  ⟨prlimit, limitOption "nproc".toList limits.maxProcesses :: limitOption "nofile".toList limits.maxOpenFiles ::
    limitOption "core".toList limits.maxCoreBytes :: "--".toList :: launch.program :: launch.args⟩

def resolveAccountIds (name : Word) : Except LaunchError AccountIds :=
  match H.fromName name with
  | .ok (some ids) => .ok ids
  | .ok none => .error .forbidden
  | .error e => .error (.lookupFailed e)

def nonEmpty (text : Option Word) : Option Word := text.filter fun t => !t.isEmpty

/-- The command of a launch that does not switch. -/
def directProgram (command : Option Word) : Word := (nonEmpty command).getD ((H.var "SHELL".toList).getD defaultShell)

def buildLaunch (privilegeDrop : Bool) (limits : ShellResourceLimits) (account command : Option Word) (args : List Word) :
    Except LaunchError Launch :=
  if limits.maxProcesses = 0 ∨ limits.maxOpenFiles = 0 then .error .zeroLimits
  else if H.exists? prlimit = false then .error .noPrlimit
  else
    match (if privilegeDrop then nonEmpty account else none) with
    | none => .ok (prlimitWrap limits ⟨directProgram H command, args⟩)
    | some name =>
      match resolveAccountIds H name with
      | .error e => .error e
      | .ok ids =>
        if ids.uid = H.own.uid then .ok (prlimitWrap limits ⟨directProgram H command, args⟩)
        else if H.exists? setpriv = false then .error (.noSetpriv name)
        else
          let locale := if H.exists? env then localeEnv H else []
          .ok (prlimitWrap limits (setprivWrap ids locale ((nonEmpty command).getD defaultShell) args))

/-! ## What the wrappers make of it -/

/-- A program about to be executed, the identity it gets, and the hard and soft limits. -/
structure Exec where
  program : Word
  args : List Word
  identity : Identity
  limits : List (Word × Nat × Nat)
  deriving DecidableEq, Repr

inductive Wrapper where
  | prlimit
  | setpriv
  | env
  deriving DecidableEq, Repr

def readNumber (word : Word) : Option Nat :=
  if word ≠ [] ∧ word.all Char.isDigit then some (Nat.ofDigitChars 10 word 0) else none

/-- `soft:hard`. -/
def readLimits (word : Word) : Option (Nat × Nat) :=
  match word.dropWhile (· ≠ ':') with
  | [] => none
  | _ :: hard => (readNumber (word.takeWhile (· ≠ ':'))).bind fun soft => (readNumber hard).map fun hard => (soft, hard)

/-- `prlimit [options] [--resource[=limits] ...] command [argument ...]`. -/
def prlimitOptions : Options :=
  [("as".toList, .optional), ("core".toList, .optional), ("cpu".toList, .optional), ("data".toList, .optional),
    ("fsize".toList, .optional), ("locks".toList, .optional), ("memlock".toList, .optional), ("msgqueue".toList, .optional),
    ("nice".toList, .optional), ("nofile".toList, .optional), ("nproc".toList, .optional), ("rss".toList, .optional),
    ("rtprio".toList, .optional), ("rttime".toList, .optional), ("sigpending".toList, .optional), ("stack".toList, .optional),
    ("noheadings".toList, .no), ("raw".toList, .no), ("verbose".toList, .no)]

def limitsOf : List (Word × Option Word) → Option (List (Word × Nat × Nat))
  | [] => some []
  | (resource, value) :: options =>
    (value.bind readLimits).bind fun limits => (limitsOf options).map fun more => (resource, limits) :: more

/-- `setpriv [options] program [arguments]`. -/
def setprivOptions : Options :=
  [("ambient-caps".toList, .required), ("inh-caps".toList, .required), ("bounding-set".toList, .required),
    ("clear-groups".toList, .no), ("groups".toList, .required), ("init-groups".toList, .no),
    ("keep-groups".toList, .no), ("no-new-privs".toList, .no),
    ("rgid".toList, .required), ("egid".toList, .required), ("regid".toList, .required), ("ruid".toList, .required),
    ("euid".toList, .required), ("reuid".toList, .required), ("securebits".toList, .required), ("pdeathsig".toList, .required),
    ("reset-env".toList, .no)]

/-- `--reuid`, `--regid` and `--init-groups` together. -/
def identityOf (options : List (Word × Option Word)) : Option Identity :=
  match options.lookup "reuid".toList, options.lookup "regid".toList, options.lookup "init-groups".toList with
  | some (some uid), some (some gid), some _ =>
    (readNumber uid).bind fun uid => (readNumber gid).map fun gid => ⟨uid, gid, H.initgroups uid gid⟩
  | _, _, _ => none

/-- `env [OPTION]... [-] [NAME=VALUE]... [COMMAND [ARG]...]`; with an option it is refused. -/
def envOptions : Options := []

/-- `NAME=VALUE`: env looks for the `=` alone. -/
def assigns (word : Word) : Bool := word.contains '='

/-- Without a command there is nothing to execute. -/
def Exec.withLine (e : Exec) : List Word → Option Exec
  | [] => none
  | program :: args => some { e with program := program, args := args }

def Wrapper.path : Wrapper → Word
  | .prlimit => Launches.prlimit
  | .setpriv => Launches.setpriv
  | .env => Launches.env

/-- What a wrapper executes. -/
def Wrapper.executes (w : Wrapper) (e : Exec) : Option Exec :=
  match w with
  | .prlimit =>
    (getopt prlimitOptions e.args).bind fun (options, rest) =>
      (limitsOf options).bind fun limits => { e with limits := limits }.withLine rest
  | .setpriv =>
    (getopt setprivOptions e.args).bind fun (options, rest) =>
      (identityOf H options).bind fun identity => { e with identity := identity }.withLine rest
  | .env =>
    (getopt envOptions e.args).bind fun (_, rest) =>
      let rest := if rest.head? = some ['-'] then rest.tail else rest
      e.withLine (rest.dropWhile assigns)

/-- Through a nest of wrappers. -/
def interpret : List Wrapper → Exec → Option Exec
  | [], e => some e
  | w :: wrappers, e => if e.program = w.path then (w.executes H e).bind (interpret wrappers) else none

/-! ## What was asked for -/

/-- The account a launch is for; without one it is for the daemon's own. -/
def accountOf (privilegeDrop : Bool) (account : Option Word) : Option AccountIds :=
  (if privilegeDrop then nonEmpty account else none).bind fun name => (resolveAccountIds H name).toOption

def switches (privilegeDrop : Bool) (account : Option Word) : Bool :=
  (accountOf H privilegeDrop account).any fun ids => ids.uid ≠ H.own.uid

def wrappersOf (privilegeDrop : Bool) (account : Option Word) : List Wrapper :=
  if switches H privilegeDrop account then [.prlimit, .setpriv] ++ (if H.exists? env then [.env] else []) else [.prlimit]

def programOf (privilegeDrop : Bool) (account command : Option Word) : Word :=
  if switches H privilegeDrop account then (nonEmpty command).getD defaultShell else directProgram H command

def AccountIds.identity (ids : AccountIds) : Identity := ⟨ids.uid, ids.gid, H.initgroups ids.uid ids.gid⟩

def ShellResourceLimits.all (limits : ShellResourceLimits) : List (Word × Nat × Nat) :=
  [("nproc".toList, limits.maxProcesses, limits.maxProcesses), ("nofile".toList, limits.maxOpenFiles, limits.maxOpenFiles),
    ("core".toList, limits.maxCoreBytes, limits.maxCoreBytes)]

/-- The wrappers execute what was asked for, as the account. -/
def Preserved (privilegeDrop : Bool) (limits : ShellResourceLimits) (account command : Option Word) (args : List Word)
    (launch : Launch) : Prop :=
  interpret H (wrappersOf H privilegeDrop account) ⟨launch.program, launch.args, H.own, []⟩ =
    some ⟨programOf H privilegeDrop account command, args,
      ((accountOf H privilegeDrop account).map (AccountIds.identity H)).getD H.own, limits.all⟩

/-- Nothing in the command is an assignment to env, and the daemon's own account has its groups. -/
def Plain (privilegeDrop : Bool) (account command : Option Word) : Prop :=
  ∀ ids ∈ accountOf H privilegeDrop account,
    if ids.uid = H.own.uid then ids.identity H = H.own
    else H.exists? env = true → '=' ∉ programOf H privilegeDrop account command

/-! ## Numbers and limits -/

theorem readNumber_number (n : Nat) : readNumber (number n) = some n := by
  have hdigits : (number n).all Char.isDigit = true :=
    List.all_eq_true.mpr fun c hc => Nat.isDigit_of_mem_toDigits (by decide) (by decide) hc
  rw [readNumber, if_pos ⟨Nat.toDigits_ne_nil, hdigits⟩]
  exact congrArg some Nat.ofDigitChars_ten_toDigits

theorem colon_not_digit (n : Nat) : ∀ c ∈ number n, decide (c ≠ ':') = true := by
  intro c hc
  have hdigit : c.isDigit = true := Nat.isDigit_of_mem_toDigits (by decide) (by decide) hc
  rw [decide_eq_true_eq]
  rintro rfl
  revert hdigit
  decide

theorem readLimits_same (n : Nat) : readLimits (number n ++ ':' :: number n) = some (n, n) := by
  have hdrop : (number n ++ ':' :: number n).dropWhile (· ≠ ':') = ':' :: number n := by
    rw [List.dropWhile_append_of_pos (colon_not_digit n)]
    rfl
  have htake : (number n ++ ':' :: number n).takeWhile (· ≠ ':') = number n := by
    rw [List.takeWhile_append_of_pos (colon_not_digit n), List.takeWhile_cons_of_neg (by decide), List.append_nil]
  unfold readLimits
  rw [hdrop]
  dsimp only
  rw [htake, readNumber_number]
  rfl

/-! ## prlimit and setpriv -/

theorem getopt_limit {resource : Word} (hne : resource ≠ []) (heq : '=' ∉ resource)
    (hlong : prlimitOptions.lookup resource = some .optional)
    (n : Nat) (rest : List Word) :
    getopt prlimitOptions (limitOption resource n :: rest) =
      withOption resource (some (number n ++ ':' :: number n)) (getopt prlimitOptions rest) :=
  getopt_option (classify_optional hne heq hlong _) rest

theorem prlimit_executes (limits : ShellResourceLimits) (launch : Launch) (identity : Identity) :
    Wrapper.executes H .prlimit ⟨(prlimitWrap limits launch).program, (prlimitWrap limits launch).args, identity, []⟩ =
      some ⟨launch.program, launch.args, identity, limits.all⟩ := by
  have hparsed : getopt prlimitOptions (prlimitWrap limits launch).args =
      some ([("nproc".toList, some (number limits.maxProcesses ++ ':' :: number limits.maxProcesses)),
        ("nofile".toList, some (number limits.maxOpenFiles ++ ':' :: number limits.maxOpenFiles)),
        ("core".toList, some (number limits.maxCoreBytes ++ ':' :: number limits.maxCoreBytes))],
          launch.program :: launch.args) := by
    unfold prlimitWrap
    rw [getopt_limit (by decide) (by decide) (by decide), getopt_limit (by decide) (by decide) (by decide),
      getopt_limit (by decide) (by decide) (by decide)]
    rfl
  simp only [Wrapper.executes, hparsed, Option.bind_some, limitsOf, readLimits_same, Option.map_some]
  rfl

theorem setpriv_executes (ids : AccountIds) (locale : List Word) (program : Word) (args : List Word) (identity : Identity)
    (limits : List (Word × Nat × Nat)) :
    Wrapper.executes H .setpriv
        ⟨(setprivWrap ids locale program args).program, (setprivWrap ids locale program args).args, identity, limits⟩ =
      (Exec.mk [] [] (ids.identity H) limits).withLine ((if locale.isEmpty then [] else env :: locale) ++ program :: args) := by
  have hparsed : getopt setprivOptions (setprivWrap ids locale program args).args =
      some ([("reuid".toList, some (number ids.uid)), ("regid".toList, some (number ids.gid)), ("init-groups".toList, none),
        ("inh-caps".toList, some "-all".toList), ("ambient-caps".toList, some "-all".toList), ("reset-env".toList, none)],
        (if locale.isEmpty then [] else env :: locale) ++ program :: args) := by
    unfold setprivWrap
    dsimp only [List.cons_append, List.nil_append]
    rw [getopt_wants (by decide : classify setprivOptions "--reuid".toList = .wants "reuid".toList),
      getopt_wants (by decide : classify setprivOptions "--regid".toList = .wants "regid".toList),
      getopt_option (by decide : classify setprivOptions "--init-groups".toList = .option "init-groups".toList none),
      getopt_wants (by decide : classify setprivOptions "--inh-caps".toList = .wants "inh-caps".toList),
      getopt_wants (by decide : classify setprivOptions "--ambient-caps".toList = .wants "ambient-caps".toList),
      getopt_option (by decide : classify setprivOptions "--reset-env".toList = .option "reset-env".toList none)]
    rfl
  have hidentity : identityOf H [("reuid".toList, some (number ids.uid)), ("regid".toList, some (number ids.gid)),
      ("init-groups".toList, none), ("inh-caps".toList, some "-all".toList), ("ambient-caps".toList, some "-all".toList),
      ("reset-env".toList, none)] = some (ids.identity H) := by
    show ((readNumber (number ids.uid)).bind fun uid => (readNumber (number ids.gid)).map fun gid => _) = _
    rw [readNumber_number, readNumber_number]
    rfl
  simp only [Wrapper.executes, hparsed, Option.bind_some, hidentity]
  rfl

/-! ## env -/

theorem localeEnv_ne (H : Host) : localeEnv H ≠ [] := by
  unfold localeEnv
  dsimp only
  split
  · exact List.cons_ne_nil _ _
  · rename_i h
    exact fun heq => h (List.isEmpty_iff.mpr heq)

/-- Every word of the locale is an assignment, and begins with an `L`. -/
theorem localeEnv_assigns {word : Word} (h : word ∈ localeEnv H) : '=' ∈ word ∧ word.head? = some 'L' := by
  have hkept : ∀ key ∈ ["LANG".toList, "LC_ALL".toList, "LC_CTYPE".toList], ∀ value,
      '=' ∈ key ++ '=' :: value ∧ (key ++ '=' :: value).head? = some 'L' := by
    intro key hkey value
    refine ⟨List.mem_append_right _ List.mem_cons_self, ?_⟩
    rcases List.mem_cons.mp hkey with rfl | hkey
    · rfl
    · rcases List.mem_cons.mp hkey with rfl | hkey
      · rfl
      · obtain rfl := List.mem_singleton.mp hkey
        rfl
  unfold localeEnv at h
  dsimp only at h
  split at h
  · obtain rfl := List.mem_singleton.mp h
    decide
  · obtain ⟨key, hkey, hword⟩ := List.mem_filterMap.mp h
    obtain ⟨value, _, rfl⟩ := Option.map_eq_some_iff.mp hword
    exact hkept key hkey value

/-- The locale is assigned, and whatever else has a `=` before the first word without one. -/
theorem env_executes (e : Exec) {locale : List Word} (hne : locale ≠ []) (h : ∀ word ∈ locale, '=' ∈ word ∧ word.head? = some 'L')
    (program : Word) (args : List Word) :
    Wrapper.executes H .env { e with args := locale ++ program :: args } =
      e.withLine ((program :: args).dropWhile assigns) := by
  rcases locale with _ | ⟨first, locale⟩
  · exact absurd rfl hne
  · have hfirst : first.head? = some 'L' := (h first List.mem_cons_self).2
    have hplain : first.head? ≠ some '-' := by
      rw [hfirst]
      decide
    have hdash : (first :: (locale ++ program :: args)).head? ≠ some ['-'] := by
      intro hd
      obtain rfl := Option.some.inj hd
      cases hfirst
    have hassigned : ∀ word ∈ first :: locale, assigns word = true := fun word hword =>
      List.contains_iff_mem.mpr (h word hword).1
    simp only [Wrapper.executes, List.cons_append, getopt_plain (classify_plain envOptions hplain),
      Option.bind_some, if_neg hdash]
    rw [← List.cons_append, List.dropWhile_append_of_pos hassigned]
    rfl

/-! ## The launch -/

theorem accountOf_none {privilegeDrop : Bool} {account : Option Word}
    (h : (if privilegeDrop then nonEmpty account else none) = none) :
    accountOf H privilegeDrop account = none := by
  rw [accountOf, h]
  rfl

theorem accountOf_some {privilegeDrop : Bool} {account : Option Word} {name : Word} {ids : AccountIds}
    (h : (if privilegeDrop then nonEmpty account else none) = some name) (hids : resolveAccountIds H name = .ok ids) :
    accountOf H privilegeDrop account = some ids := by
  rw [accountOf, h, Option.bind_some, hids]
  rfl

/-- A launch runs directly, or is wrapped for the account. -/
theorem buildLaunch_ok {privilegeDrop : Bool} {limits : ShellResourceLimits} {account command : Option Word} {args : List Word}
    {launch : Launch} (h : buildLaunch H privilegeDrop limits account command args = .ok launch) :
    (switches H privilegeDrop account = false ∧ launch = prlimitWrap limits ⟨programOf H privilegeDrop account command, args⟩) ∨
    ∃ ids, accountOf H privilegeDrop account = some ids ∧ ids.uid ≠ H.own.uid ∧ switches H privilegeDrop account = true ∧
      launch = prlimitWrap limits (setprivWrap ids (if H.exists? env then localeEnv H else [])
        (programOf H privilegeDrop account command) args) := by
  unfold buildLaunch at h
  split at h
  · cases h
  · split at h
    · cases h
    · split at h
      · rename_i hnone
        have hswitch : switches H privilegeDrop account = false := by
          rw [switches, accountOf_none H hnone]
          rfl
        refine .inl ⟨hswitch, ?_⟩
        rw [programOf, hswitch]
        exact (Except.ok.inj h).symm
      · rename_i name hname
        split at h
        · cases h
        · rename_i ids hids
          have haccount := accountOf_some H hname hids
          split at h
          · rename_i hown
            have hswitch : switches H privilegeDrop account = false := by
              rw [switches, haccount, Option.any_some, decide_eq_false_iff_not]
              exact not_not.mpr hown
            refine .inl ⟨hswitch, ?_⟩
            rw [programOf, hswitch]
            exact (Except.ok.inj h).symm
          · rename_i hother
            have hswitch : switches H privilegeDrop account = true := by
              rw [switches, haccount, Option.any_some, decide_eq_true_eq]
              exact hother
            split at h
            · cases h
            · refine .inr ⟨ids, haccount, hother, hswitch, ?_⟩
              rw [programOf, hswitch]
              exact (Except.ok.inj h).symm

theorem interpret_prlimit (limits : ShellResourceLimits) (launch : Launch) (identity : Identity) (wrappers : List Wrapper) :
    interpret H (.prlimit :: wrappers) ⟨(prlimitWrap limits launch).program, (prlimitWrap limits launch).args, identity, []⟩ =
      interpret H wrappers ⟨launch.program, launch.args, identity, limits.all⟩ := by
  rw [interpret, if_pos (show (prlimitWrap limits launch).program = Wrapper.prlimit.path from rfl), prlimit_executes,
    Option.bind_some]

theorem interpret_setpriv (ids : AccountIds) (locale : List Word) (program : Word) (args : List Word) (identity : Identity)
    (limits : List (Word × Nat × Nat)) (wrappers : List Wrapper) :
    interpret H (.setpriv :: wrappers)
        ⟨(setprivWrap ids locale program args).program, (setprivWrap ids locale program args).args, identity, limits⟩ =
      ((Exec.mk [] [] (ids.identity H) limits).withLine ((if locale.isEmpty then [] else env :: locale) ++ program :: args)).bind
        (interpret H wrappers) := by
  rw [interpret, if_pos (show (setprivWrap ids locale program args).program = Wrapper.setpriv.path from rfl), setpriv_executes]

/-- What env executes is the command, if no word of it is an assignment. -/
theorem withLine_dropWhile (e : Exec) (program : Word) (args : List Word) :
    e.withLine ((program :: args).dropWhile assigns) = some { e with program := program, args := args } ↔
      '=' ∉ program := by
  by_cases heq : assigns program = true
  · rw [List.dropWhile_cons_of_pos heq]
    refine iff_of_false ?_ fun hno => hno (List.contains_iff_mem.mp heq)
    intro hline
    have hhead := List.head?_dropWhile_not assigns args
    rcases hrest : args.dropWhile assigns with _ | ⟨word, rest⟩
    · rw [hrest] at hline
      cases hline
    · rw [hrest] at hline hhead
      have hword : word = program := congrArg Exec.program (Option.some.inj hline)
      rw [List.head?_cons, hword] at hhead
      dsimp only at hhead
      rw [heq] at hhead
      cases hhead
  · rw [List.dropWhile_cons_of_neg heq]
    exact iff_of_true rfl fun hmem => heq (List.contains_iff_mem.mpr hmem)

/-- For every host, account, limits, command and arguments a launch is built for: the wrappers execute
    the command asked for with its arguments as the account, exactly if the command is no assignment to
    env and the daemon's own account has its groups. -/
theorem launch_preserved_iff (privilegeDrop : Bool) (limits : ShellResourceLimits) (account command : Option Word)
    (args : List Word)
    (launch : Launch) (h : buildLaunch H privilegeDrop limits account command args = .ok launch) :
    Preserved H privilegeDrop limits account command args launch ↔ Plain H privilegeDrop account command := by
  unfold Preserved wrappersOf Plain
  rcases buildLaunch_ok H h with ⟨hswitch, rfl⟩ | ⟨ids, haccount, hother, hswitch, rfl⟩
  · rw [hswitch, if_neg Bool.false_ne_true, interpret_prlimit, interpret]
    cases haccount : accountOf H privilegeDrop account with
    | none => exact iff_of_true rfl nofun
    | some ids =>
      have hown : ids.uid = H.own.uid := by
        rw [switches, haccount, Option.any_some, decide_eq_false_iff_not] at hswitch
        exact not_not.mp hswitch
      constructor
      · intro hsome other hmem
        obtain rfl := Option.some.inj hmem
        rw [if_pos hown]
        exact (congrArg Exec.identity (Option.some.inj hsome)).symm
      · intro hplain
        have hidentity := hplain ids rfl
        rw [if_pos hown] at hidentity
        rw [Option.map_some, Option.getD_some, hidentity]
  · rw [hswitch, if_pos rfl, List.cons_append, interpret_prlimit, List.cons_append, interpret_setpriv, haccount, Option.map_some,
      Option.getD_some]
    have hplain : (∀ other ∈ some ids, if other.uid = H.own.uid then other.identity H = H.own
        else H.exists? env = true → '=' ∉ programOf H privilegeDrop account command) ↔
        (H.exists? env = true → '=' ∉ programOf H privilegeDrop account command) := by
      constructor
      · intro hall
        have hids := hall ids rfl
        rwa [if_neg hother] at hids
      · intro hno other hmem
        obtain rfl := Option.some.inj hmem
        rwa [if_neg hother]
    rw [hplain]
    cases henv : H.exists? env with
    | false => exact iff_of_true rfl fun hf => absurd hf Bool.false_ne_true
    | true =>
      have hlocale : (localeEnv H).isEmpty = false := Bool.not_eq_true _ ▸ fun he => localeEnv_ne H (List.isEmpty_iff.mp he)
      rw [if_pos rfl, if_pos rfl, hlocale]
      have hexec := env_executes H ⟨env, [], ids.identity H, limits.all⟩ (localeEnv_ne H) (fun word hw => localeEnv_assigns H hw)
        (programOf H privilegeDrop account command) args
      have hline := withLine_dropWhile ⟨env, [], ids.identity H, limits.all⟩ (programOf H privilegeDrop account command) args
      rw [if_neg Bool.false_ne_true, List.cons_append, Exec.withLine, Option.bind_some, List.nil_append, interpret,
        if_pos (show env = Wrapper.env.path from rfl)]
      refine Iff.trans ?_ (hline.trans (imp_iff_right rfl).symm)
      show (Wrapper.executes H .env { Exec.mk env [] (ids.identity H) limits.all with
        args := localeEnv H ++ programOf H privilegeDrop account command :: args }).bind some = _ ↔ _
      rw [hexec, Option.bind_fun_some]

/-! ## A host to try it on -/

def sampleHost : Host :=
  { exists? := fun _ => true
    var := fun _ => none
    fromName := fun name => .ok (if name = "alice".toList then some ⟨1001, 2002⟩ else none)
    own := ⟨990, 990, [990]⟩
    initgroups := fun _ gid => [gid, 27] }

def sampleLimits : ShellResourceLimits := ⟨512, 1024, 0⟩

/-- `-l` of `bash`, and an argument that looks like an assignment, as `alice`. -/
theorem launch_preserved_bash :
    ∃ launch, buildLaunch sampleHost true sampleLimits (some "alice".toList) (some "bash".toList)
    ["-l".toList, "a=b".toList] = .ok launch ∧
      Preserved sampleHost true sampleLimits (some "alice".toList) (some "bash".toList) ["-l".toList, "a=b".toList] launch := by
  refine ⟨_, rfl, (launch_preserved_iff sampleHost true sampleLimits _ _ _ _ rfl).mpr ?_⟩
  intro ids hids
  obtain rfl := Option.some.inj (show some (AccountIds.mk 1001 2002) = some ids from hids)
  decide

/-- A shell in a directory whose name has a `=` in it: env takes the command as an assignment, and has
    none left. -/
theorem launch_assignment :
    ¬ ∀ (H : Host) (privilegeDrop : Bool) (limits : ShellResourceLimits) (account command : Option Word) (args : List Word)
      (launch : Launch), buildLaunch H privilegeDrop limits account command args = .ok launch →
        Preserved H privilegeDrop limits account command args launch := by
  intro h
  have hlaunch := h sampleHost true sampleLimits (some "alice".toList) (some "/opt/v=2/bin/fish".toList) [] _ rfl
  revert hlaunch
  unfold Preserved
  decide +kernel

end Holdfast.Session.Launches
