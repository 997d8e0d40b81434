/-
  Holdfast.Terminal.ModeRestore — the modes replayed after a snapshot come back
  (`restore_sequence` and `scan` of `crates/terminal-model/src/modes.rs`).

  The replay turns the active modes on one after the other, and turning a mouse protocol on
  turns the others off. `Exclusive` says that there is nothing to turn off: at most one
  protocol is active. It holds in every state a tracker scans itself into, and so does
  `Buffered`: inside a control sequence the parameter buffer holds digits and semicolons,
  within its length.

  Proved, for every text (`modes_restored`): at most one protocol is active; a fresh tracker
  that scans the replay ends in the ground state with the same modes; the parameters of a
  sequence are a slice of the buffer, and text.
-/

import Mathlib.Data.List.DropRight
import Holdfast.Terminal.Modes

namespace Holdfast.Terminal

namespace ModeTracker

/-! ## The modes -/

def isActive (t : ModeTracker) (code : Nat) : Bool :=
  match position code with
  | some i => (t.active.get i)
  | none => false

def isMouse (i : Fin 11) : Bool := mouseProtocols.contains (tracked.get i)

theorem position_tracked : ∀ i : Fin 11, position (tracked.get i) = some i := by decide

theorem tracked_of_position {code : Nat} {i : Fin 11} (h : position code = some i) : (tracked.get i) = code :=
  eq_of_beq (List.find?_some (p := fun i => (tracked.get i) == code) h)

theorem put_get (active : Vector Bool 11) (i j : Fin 11) (set : Bool) :
    (put active i set).get j = if i = j then set else active.get j := by
  have h : (active.set i set)[j.val] = if i.val = j.val then set else active[j.val] := Vector.getElem_set i.isLt j.isLt
  simp only [Fin.ext_iff]
  exact h

theorem off_get (active : Vector Bool 11) (code : Nat) (j : Fin 11) :
    (off active code).get j = if tracked.get j = code then false else active.get j := by
  unfold off
  rcases hp : position code with _ | i
  · have : (tracked.get j) ≠ code := fun h => by rw [← h, position_tracked] at hp; cases hp
    rw [if_neg this]
  · have hi := tracked_of_position hp
    simp only [put_get]
    by_cases hij : i = j
    · rw [if_pos hij, if_pos (hij ▸ hi)]
    · have : (tracked.get j) ≠ code := fun h => by
        rw [← h, position_tracked] at hp
        exact hij (Option.some.inj hp).symm
      rw [if_neg hij, if_neg this]

theorem foldl_off_get (codes : List Nat) (active : Vector Bool 11) (j : Fin 11) :
    (codes.foldl off active).get j = if (tracked.get j) ∈ codes then false else active.get j := by
  induction codes generalizing active with
  | nil => rfl
  | cons code codes ih =>
    rw [List.foldl_cons, ih, off_get]
    by_cases hmem : (tracked.get j) ∈ codes
    · rw [if_pos hmem, if_pos (List.mem_cons_of_mem _ hmem)]
    · by_cases hcode : tracked.get j = code
      · rw [if_neg hmem, if_pos hcode, if_pos (hcode ▸ List.mem_cons_self)]
      · rw [if_neg hmem, if_neg hcode, if_neg fun h => (List.mem_cons.mp h).elim hcode hmem]

/-- Setting or resetting a tracked mode: it is `set`, and setting a mouse protocol turns
    every other one off. -/
theorem apply_get (active : Vector Bool 11) (i j : Fin 11) (set : Bool) :
    (apply active (tracked.get i) set).get j =
      if i = j then set else if set && isMouse i && isMouse j then false else active.get j := by
  unfold apply
  rw [position_tracked]
  simp only [put_get]
  by_cases hij : i = j
  · rw [if_pos hij, if_pos hij]
  · rw [if_neg hij, if_neg hij]
    have hne : (tracked.get j) ≠ (tracked.get i) := fun h => by
      have := position_tracked j
      rw [h, position_tracked] at this
      exact hij (Option.some.inj this)
    by_cases hset : (set && mouseProtocols.contains (tracked.get i)) = true
    · rw [if_pos hset, foldl_off_get]
      have hi : (set && isMouse i) = true := hset
      rw [hi, Bool.true_and]
      simp only [List.mem_filter, bne_iff_ne, ne_eq, hne, not_false_eq_true, and_true, isMouse, List.contains_iff_mem]
    · have hi : (set && isMouse i) = false := Bool.eq_false_iff.mpr hset
      rw [if_neg hset, hi, Bool.false_and, if_neg (by simp)]

theorem apply_untracked {active : Vector Bool 11} {code : Nat} {set : Bool} (h : position code = none) :
    apply active code set = active := by
  unfold apply
  rw [h]

/-! ## At most one mouse protocol -/

/-- No two mouse protocols are active. -/
def Exclusive (active : Vector Bool 11) : Prop :=
  ∀ i j, isMouse i = true → isMouse j = true → (active.get i) = true → (active.get j) = true → i = j

theorem allOff_get (i : Fin 11) : allOff.get i = false := Vector.getElem_replicate i.isLt

theorem exclusive_allOff : Exclusive allOff := by
  intro i j _ _ hi _
  rw [allOff_get] at hi
  cases hi

theorem Exclusive.apply {active : Vector Bool 11} (h : Exclusive active) (code : Nat) (set : Bool) :
    Exclusive (apply active code set) := by
  rcases hp : position code with _ | k
  · rw [apply_untracked hp]
    exact h
  · intro i j hi hj
    rw [← tracked_of_position hp, apply_get, apply_get]
    intro hai haj
    -- a protocol other than the one at `k` is active only when `k` was not set, or is none
    by_cases hki : k = i
    · by_cases hkj : k = j
      · exact hki.symm.trans hkj
      · rw [if_pos hki] at hai
        rw [if_neg hkj, hai, hki, hi, hj] at haj
        cases haj
    · by_cases hkj : k = j
      · rw [if_pos hkj] at haj
        rw [if_neg hki, haj, hkj, hi, hj] at hai
        cases hai
      · rw [if_neg hki] at hai
        rw [if_neg hkj] at haj
        split at hai
        · cases hai
        · split at haj
          · cases haj
          · exact h i j hi hj hai haj

theorem Exclusive.finishCsi {t : ModeTracker} (h : Exclusive t.active) (frame : CsiFrame) (ch : Char) :
    Exclusive (finishCsi t frame ch) := by
  unfold ModeTracker.finishCsi
  split
  · exact h
  · split
    · exact exclusive_allOff
    · split
      · exact h
      · generalize splitParams (t.params.toList.take frame.paramsLen) = parts
        generalize t.active = active at h
        induction parts generalizing active with
        | nil => exact h
        | cons part parts ih =>
          refine ih _ ?_
          dsimp only
          split
          · exact h.apply _ _
          · exact h

/-- What a character can do to the modes. -/
theorem step_active (t : ModeTracker) (ch : Char) :
    (t.step ch).active = t.active ∨ (t.step ch).active = allOff ∨
      ∃ frame, t.state = .csi frame ∧ (t.step ch).active = finishCsi t frame ch := by
  rcases hs : t.state with _ | _ | frame | _ | _ <;> simp only [step, hs]
  · repeat' split
    all_goals exact .inl rfl
  · repeat' split
    · exact .inl rfl
    · exact .inl rfl
    · exact .inr (.inl rfl)
    · exact .inl rfl
    · exact .inl rfl
  · unfold stepCsi pushParam
    repeat' split
    all_goals first | exact .inl rfl | exact .inr (.inr ⟨frame, rfl, rfl⟩)
  · repeat' split
    all_goals exact .inl rfl
  · repeat' split
    all_goals exact .inl rfl

theorem Exclusive.step {t : ModeTracker} (h : Exclusive t.active) (ch : Char) : Exclusive (t.step ch).active := by
  obtain hsame | hoff | ⟨frame, -, hfinish⟩ := step_active t ch
  · rw [hsame]; exact h
  · rw [hoff]; exact exclusive_allOff
  · rw [hfinish]; exact h.finishCsi frame ch

theorem Exclusive.scan {t : ModeTracker} (h : Exclusive t.active) (text : Text) : Exclusive (t.scan text).active := by
  induction text generalizing t with
  | nil => exact h
  | cons ch text ih => exact ih (h.step ch)

/-! ## The parameter buffer -/

/-- A digit or a semicolon. -/
def ParamByte (b : UInt8) : Prop := (0x30 ≤ b.toNat ∧ b.toNat ≤ 0x39) ∨ b.toNat = 0x3B

/-- Inside a control sequence: the parameters collected are a slice of the buffer, and
    digits and semicolons. -/
def Buffered (t : ModeTracker) : Prop :=
  match t.state with
  | .csi frame => frame.paramsLen ≤ maxParams ∧ ∀ b ∈ t.params.toList.take frame.paramsLen, ParamByte b
  | _ => True

theorem pushed_take {params : Vector UInt8 maxParams} {n : Nat} (h : n < maxParams) (x : UInt8) :
    (params.set n x).toList.take (n + 1) = params.toList.take n ++ [x] := by
  have hlen : n < (params.toList.set n x).length := by simpa using h
  rw [Vector.toList_set, List.take_succ_eq_append_getElem hlen, List.getElem_set_self, List.take_set_of_le (Nat.le_refl n)]

theorem paramByte_of {ch : Char} (h : ('0' ≤ ch ∧ ch ≤ '9') ∨ ch = ';') : ParamByte (UInt8.ofNat ch.toNat) := by
  rcases h with ⟨h0, h9⟩ | rfl
  · have h0 : 0x30 ≤ ch.toNat := h0
    have h9 : ch.toNat ≤ 0x39 := h9
    left
    rw [UInt8.toNat_ofNat', Nat.mod_eq_of_lt (by omega)]
    exact ⟨h0, h9⟩
  · exact .inr rfl

theorem Buffered.stepCsi {t : ModeTracker} {frame : CsiFrame} (h : frame.paramsLen ≤ maxParams)
    (hb : ∀ b ∈ t.params.toList.take frame.paramsLen, ParamByte b) (ch : Char) : Buffered (t.stepCsi frame ch) := by
  unfold ModeTracker.stepCsi
  split
  · exact ⟨h, hb⟩
  · split
    · rename_i hch
      unfold pushParam
      split
      · rename_i hroom
        refine ⟨hroom, fun b hmem => ?_⟩
        rw [pushed_take hroom] at hmem
        obtain hmem | hmem := List.mem_append.mp hmem
        · exact hb b hmem
        · rw [List.mem_singleton.mp hmem]
          exact paramByte_of hch
      · exact ⟨h, hb⟩
    · repeat' split
      all_goals first | exact ⟨h, hb⟩ | exact trivial

theorem Buffered.step {t : ModeTracker} (h : Buffered t) (ch : Char) : Buffered (t.step ch) := by
  have hnew : ∀ params active, Buffered ⟨.csi .default, params, active⟩ := fun _ _ => ⟨Nat.zero_le _, by simp [CsiFrame.default]⟩
  unfold Buffered at h
  rcases hs : t.state with _ | _ | frame | _ | _ <;> rw [hs] at h <;> simp only [ModeTracker.step, hs]
  · repeat' split
    all_goals first | exact hnew _ _ | exact trivial
  · repeat' split
    all_goals first | exact hnew _ _ | exact trivial
  · exact Buffered.stepCsi h.1 h.2 ch
  · repeat' split
    all_goals exact trivial
  · repeat' split
    all_goals exact trivial

theorem Buffered.scan {t : ModeTracker} (h : Buffered t) (text : Text) : Buffered (t.scan text) := by
  induction text generalizing t with
  | nil => exact h
  | cons ch text ih => exact ih (h.step ch)

theorem validateN_ascii (n : Nat) : ∀ l : List UInt8, (∀ b ∈ l, b.toNat < 0x80) → (validateN n l).error = none := by
  induction n with
  | zero => intro l _; rfl
  | succ n ih =>
    intro l hl
    rcases l with _ | ⟨b, r⟩
    · rfl
    · obtain ⟨hb, hr⟩ := List.forall_mem_cons.mp hl
      have hw : utf8CharWidth b = 1 := if_pos hb
      simp only [validateN, front, hw]
      exact ih r hr

/-- The parameters of a sequence lie within the buffer, and are text. -/
def Readable (t : ModeTracker) : Prop :=
  match t.state with
  | .csi frame => frame.paramsLen ≤ maxParams ∧ (fromUtf8 (t.params.toList.take frame.paramsLen)).error = none
  | _ => True

theorem Buffered.readable {t : ModeTracker} (h : Buffered t) : Readable t := by
  unfold Buffered at h
  unfold Readable
  rcases hs : t.state with _ | _ | frame | _ | _ <;> rw [hs] at h <;> try exact trivial
  refine ⟨h.1, validateN_ascii _ _ fun b hb => ?_⟩
  obtain hdigit | hsemi := h.2 b hb
  · omega
  · omega

/-! ## Scanning the replay -/

/-- The bytes of parameter characters. -/
def paramBytes (text : Text) : List UInt8 := text.map fun ch => UInt8.ofNat ch.toNat

theorem scan_params {text : Text} (htext : ∀ ch ∈ text, ('0' ≤ ch ∧ ch ≤ '9') ∨ ch = ';') {t : ModeTracker} {frame : CsiFrame}
    (hs : t.state = .csi frame) (hroom : frame.paramsLen + text.length ≤ maxParams) :
    ∃ params, t.scan text = ⟨.csi { frame with paramsLen := frame.paramsLen + text.length }, params, t.active⟩ ∧
      params.toList.take (frame.paramsLen + text.length) = t.params.toList.take frame.paramsLen ++ paramBytes text := by
  induction text generalizing t frame with
  | nil =>
    refine ⟨t.params, ?_, by simp [paramBytes]⟩
    obtain ⟨state, params, active⟩ := t
    subst hs
    rfl
  | cons ch text ih =>
    obtain ⟨hch, htext⟩ := List.forall_mem_cons.mp htext
    rw [List.length_cons] at hroom ⊢
    have hlt : frame.paramsLen < maxParams := by omega
    have hne : (ch == '?') = false := by
      rcases hch with ⟨h0, h9⟩ | rfl
      · exact beq_eq_false_iff_ne.mpr fun h => by rw [h] at h9; exact absurd h9 (by decide)
      · rfl
    have hstep : t.step ch = ⟨.csi { frame with paramsLen := frame.paramsLen + 1 },
        t.params.set frame.paramsLen (UInt8.ofNat ch.toNat), t.active⟩ := by
      simp only [step, hs, stepCsi, hne, Bool.false_and, Bool.false_eq_true, if_false, if_pos hch, pushParam, dif_pos hlt]
    have hscan : t.scan (ch :: text) = (t.step ch).scan text := rfl
    have hnext : (t.step ch).state = .csi { frame with paramsLen := frame.paramsLen + 1 } := by rw [hstep]
    obtain ⟨params, hrun, htake⟩ := ih htext hnext (by simp only; omega)
    simp only [Nat.add_assoc, Nat.add_comm 1] at hrun htake
    refine ⟨params, ?_, ?_⟩
    · rw [hscan, hrun, hstep]
    · rw [htake, hstep]
      simp only [pushed_take hlt, paramBytes, List.map_cons, List.append_assoc, List.singleton_append]

/-- A code of the replay is one parameter, and is read back. -/
theorem code_read : ∀ i : Fin 11, (Nat.toDigits 10 (tracked.get i)).all (fun ch => '0' ≤ ch && ch ≤ '9') = true ∧
    (Nat.toDigits 10 (tracked.get i)).length ≤ maxParams ∧
    splitParams (paramBytes (Nat.toDigits 10 (tracked.get i))) = [paramBytes (Nat.toDigits 10 (tracked.get i))] ∧
    parseU16 (paramBytes (Nat.toDigits 10 (tracked.get i))) = some (tracked.get i) := by
  decide +kernel

theorem scan_setSequence {t : ModeTracker} (h : t.state = .ground) (i : Fin 11) :
    (t.scan (setSequence (tracked.get i))).state = .ground ∧ (t.scan (setSequence (tracked.get i))).active =
    apply t.active (tracked.get i) true := by
  obtain ⟨hall, hlen, hsplit, hparse⟩ := code_read i
  have hdigits : ∀ ch ∈ Nat.toDigits 10 (tracked.get i), '0' ≤ ch ∧ ch ≤ '9' := by simpa using hall
  have hopen : t.scan [Char.ofNat 0x1b, '[', '?'] = ⟨.csi ⟨true, false, false, 0⟩, t.params, t.active⟩ := by
    obtain ⟨state, params, active⟩ := t
    subst h
    rfl
  have hcsi : (t.scan [Char.ofNat 0x1b, '[', '?']).state = .csi ⟨true, false, false, 0⟩ := by rw [hopen]
  obtain ⟨params, hrun, htake⟩ := scan_params (fun ch hch => .inl (hdigits ch hch)) hcsi (by simpa using hlen)
  rw [hopen, Nat.zero_add] at hrun htake
  rw [List.take_zero, List.nil_append] at htake
  unfold setSequence
  rw [scan_append, scan_append, hopen, hrun]
  have hfinal : (⟨.csi ⟨true, false, false, (Nat.toDigits 10 (tracked.get i)).length⟩, params,
    t.active⟩ : ModeTracker).scan ['h'] =
      ⟨.ground, params, apply t.active (tracked.get i) true⟩ := by
    show ModeTracker.mk _ _ (finishCsi _ _ 'h') = _
    simp only [finishCsi, htake, hsplit, List.foldl_cons, List.foldl_nil, hparse]
    rfl
  rw [hfinal]
  exact ⟨rfl, rfl⟩

/-- The replay of the modes at `is` is their setting, one after the other. -/
theorem scan_replay (active : Vector Bool 11) (is : List (Fin 11)) {t : ModeTracker} (h : t.state = .ground) :
    (t.scan (is.flatMap fun i => if (active.get i) then setSequence (tracked.get i) else [])).state = .ground ∧
      (t.scan (is.flatMap fun i => if (active.get i) then setSequence (tracked.get i) else [])).active =
        is.foldl (fun acc i => if (active.get i) then apply acc (tracked.get i) true else acc) t.active := by
  induction is generalizing t with
  | nil => exact ⟨h, rfl⟩
  | cons i is ih =>
    rw [List.flatMap_cons, scan_append, List.foldl_cons]
    by_cases hi : (active.get i) = true
    · obtain ⟨hground, hset⟩ := scan_setSequence h i
      simp only [hi, if_true]
      rw [← hset]
      exact ih hground
    · simp only [hi, Bool.false_eq_true, if_false, scan_nil]
      exact ih h

/-- Setting modes of an exclusive set turns none of them off. -/
theorem replay_get {active : Vector Bool 11} (hex : Exclusive active) (is : List (Fin 11)) :
    ∀ acc : Vector Bool 11, (∀ j : Fin 11, acc.get j = true → (active.get j) = true) → ∀ j : Fin 11,
      (is.foldl (fun acc i => if (active.get i) then apply acc (tracked.get i) true else acc) acc).get j =
        (acc.get j || (decide (j ∈ is) && (active.get j))) := by
  induction is with
  | nil => intro acc _ j; simp
  | cons i is ih =>
    intro acc hacc j
    rw [List.foldl_cons]
    by_cases hi : (active.get i) = true
    · have hset : ∀ k : Fin 11, (apply acc (tracked.get i) true).get k = (acc.get k || decide (i = k)) := by
        intro k
        rw [apply_get]
        by_cases hik : i = k
        · rw [if_pos hik, decide_eq_true hik, Bool.or_true]
        · rw [if_neg hik, decide_eq_false hik, Bool.or_false]
          split
          · rename_i hmouse
            simp only [Bool.true_and, Bool.and_eq_true] at hmouse
            cases hk : acc.get k
            · rfl
            · exact absurd (hex i k hmouse.1 hmouse.2 hi (hacc k hk)) hik
          · rfl
      have hsub : ∀ k : Fin 11, (apply acc (tracked.get i) true).get k = true → (active.get k) = true := by
        intro k hk
        rw [hset, Bool.or_eq_true, decide_eq_true_eq] at hk
        rcases hk with hk | rfl
        · exact hacc k hk
        · exact hi
      rw [if_pos hi, ih _ hsub, hset]
      by_cases hij : i = j
      · simp [hij, hij ▸ hi]
      · simp [hij, Ne.symm hij]
    · rw [if_neg hi, ih acc hacc]
      by_cases hij : j = i
      · simp [hij, Bool.eq_false_iff.mpr hi]
      · simp [hij]

theorem Exclusive.replayed {active : Vector Bool 11} (hex : Exclusive active) :
    (List.finRange 11).foldl
      (fun acc i => if (active.get i) then ModeTracker.apply acc (tracked.get i) true else acc) allOff = active := by
  refine Vector.ext fun j hj => ?_
  have := replay_get hex (List.finRange 11) allOff (fun k hk => by rw [allOff_get] at hk; cases hk) ⟨j, hj⟩
  rw [allOff_get, Bool.false_or, decide_eq_true (List.mem_finRange _), Bool.true_and] at this
  exact this

/-- Among the codes active of an exclusive set no two are different. -/
theorem Exclusive.same {t : ModeTracker} (h : Exclusive t.active) {c d : Nat} (hc : c ∈ mouseProtocols.filter t.isActive)
    (hd : d ∈ mouseProtocols.filter t.isActive) : c = d := by
  have hone : ∀ c ∈ mouseProtocols.filter t.isActive, ∃ i, position c = some i ∧ isMouse i = true ∧ (t.active.get i) = true := by
    intro c hc
    obtain ⟨hmem, hact⟩ := List.mem_filter.mp hc
    unfold isActive at hact
    split at hact
    · rename_i i hp
      refine ⟨i, hp, ?_, hact⟩
      rw [isMouse, tracked_of_position hp]
      exact List.contains_iff_mem.mpr hmem
    · cases hact
  obtain ⟨i, hi, hmi, hai⟩ := hone c hc
  obtain ⟨j, hj, hmj, haj⟩ := hone d hd
  rw [← tracked_of_position hi, ← tracked_of_position hj, h i j hmi hmj hai haj]

theorem Exclusive.atMostOne {t : ModeTracker} (h : Exclusive t.active) : (mouseProtocols.filter t.isActive).length ≤ 1 := by
  have hnodup : (mouseProtocols.filter t.isActive).Nodup := List.Nodup.filter _ (by decide)
  rcases hcodes : mouseProtocols.filter t.isActive with _ | ⟨c, _ | ⟨d, rest⟩⟩
  · exact Nat.zero_le _
  · exact Nat.le_refl _
  · have hcd : c = d := h.same (by rw [hcodes]; simp) (by rw [hcodes]; simp)
    rw [hcodes, hcd] at hnodup
    simp at hnodup

theorem new_exclusive : Exclusive new.active := exclusive_allOff

/-- Whatever was scanned: the replay brings the same modes back, because at most one mouse
    protocol is among them. -/
theorem modes_restored (text : Text) :
    let t := new.scan text
    (mouseProtocols.filter t.isActive).length ≤ 1 ∧
      (new.scan t.restoreSequence).active = t.active ∧ (new.scan t.restoreSequence).state = .ground ∧
      (∀ more, new.scan (text ++ more) = t.scan more) ∧
      Readable t := by
  intro t
  have hex : Exclusive t.active := new_exclusive.scan text
  obtain ⟨hground, hactive⟩ := scan_replay t.active (List.finRange 11) (t := new) rfl
  have hbuf : Buffered t := Buffered.scan (t := new) trivial text
  exact ⟨hex.atMostOne, hactive.trans hex.replayed, hground, fun more => scan_append new text more, hbuf.readable⟩

/-- A protocol set after another replaces it, and is the one replayed. -/
example : (new.scan "\x1b[?1000;1006h\x1b[?1003h".toList).restoreSequence = "\x1b[?1003h\x1b[?1006h".toList := by decide +kernel

end ModeTracker

end Holdfast.Terminal
