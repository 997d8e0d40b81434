/-
  Holdfast.Daemon.StaticPath — which file a request path names (`resolve_static_path` of
  `crates/daemon/src/webtransport.rs`).

  A path is its bytes. `pathComponents` is `Path::components` of Unix: the root, a leading
  current directory, and the names, of which `..` is the parent. Empty segments and other
  single dots are none.

  Proved (`static_path_inside`): a path that resolves is the root joined with names, none
  of them the parent, so the root's components come first.
-/

import Holdfast.Base.Split
import Holdfast.Upload.Names

namespace Holdfast.Daemon

open Holdfast.Upload

def maxRequestPathBytes : Nat := 1024

inductive Component where
  | rootDir
  | curDir
  | parentDir
  | normal (name : List UInt8)
  deriving DecidableEq, Repr

def Component.isNormal : Component → Bool
  | .normal _ => true
  | _ => false

/-- What a path starts from. -/
def origin (path : List UInt8) : List Component :=
  if path.head? = some 0x2F then [.rootDir]
  else if path = [0x2E] ∨ [0x2E, 0x2F] <+: path then [.curDir]
  else []

def Component.ofName (name : List UInt8) : Component := if name = [0x2E, 0x2E] then .parentDir else .normal name

def pathComponents (path : List UInt8) : List Component := origin path ++ (components path).map Component.ofName

def indexHtml : List UInt8 := [0x69, 0x6E, 0x64, 0x65, 0x78, 0x2E, 0x68, 0x74, 0x6D, 0x6C]

def resolveStaticPath (root path : List UInt8) : Option (List UInt8) :=
  if path.length > maxRequestPathBytes ∨ 0x25 ∈ path ∨ 0x5C ∈ path then none
  else
    match path with
    | 0x2F :: relative =>
      let relative := if relative = [] then indexHtml else relative
      if (pathComponents relative).all Component.isNormal then some (join root relative) else none
    | _ => none

theorem components_join_relative (root : List UInt8) {relative : List UInt8} (h : relative.head? ≠ some 0x2F) :
    components (join root relative) = components root ++ components relative := by
  unfold join
  rw [if_neg h]
  split
  · rename_i hend
    rcases hend with rfl | hlast
    · rfl
    · obtain ⟨dir, rfl⟩ := List.getLast?_eq_some_iff.mp hlast
      have hdir : components (dir ++ [0x2F]) = components dir := by
        rw [components_append]
        exact List.append_nil _
      rw [List.append_assoc, List.singleton_append, components_append, hdir]
  · rw [components_append]

theorem origin_nil : origin [] = [] := by decide

theorem origin_long (b c : UInt8) (rest rest' : List UInt8) : origin (b :: c :: rest) = origin (b :: c :: rest') := by
  simp [origin, List.cons_prefix_cons]

theorem origin_slash (b : UInt8) (rest : List UInt8) : origin (b :: 0x2F :: rest) = origin [b] := by
  by_cases hslash : b = 0x2F
  · subst hslash
    rfl
  · have hroot : ∀ tail : List UInt8, (b :: tail).head? ≠ some 0x2F := fun tail h => hslash (Option.some.inj h)
    unfold origin
    rw [if_neg (hroot _), if_neg (hroot _)]
    by_cases hdot : b = 0x2E
    · subst hdot
      rw [if_pos (.inr ⟨rest, rfl⟩), if_pos (.inl rfl)]
    · rw [if_neg, if_neg]
      · exact fun h => h.elim (fun h => hdot (List.cons.inj h).1) fun h => hdot (List.cons_prefix_cons.mp h).1.symm
      · exact fun h => h.elim (fun h => hdot (List.cons.inj h).1) fun h => hdot (List.cons_prefix_cons.mp h).1.symm

theorem origin_join {root relative : List UInt8} (h : origin relative = []) : origin (join root relative) = origin root := by
  have hhead : relative.head? ≠ some 0x2F := by
    intro hh
    rw [origin, if_pos hh] at h
    cases h
  unfold join
  rw [if_neg hhead]
  rcases root with _ | ⟨b, _ | ⟨c, root⟩⟩
  · rw [if_pos (.inl rfl), List.nil_append, h, origin_nil]
  · split
    · rename_i hend
      obtain rfl : b = 0x2F := by simpa using hend
      rfl
    · exact origin_slash b relative
  · split <;> exact origin_long b c _ _

theorem pathComponents_join {root relative : List UInt8} (h : origin relative = []) :
    pathComponents (join root relative) = pathComponents root ++ pathComponents relative := by
  have hhead : relative.head? ≠ some 0x2F := by
    intro hh
    rw [origin, if_pos hh] at h
    cases h
  rw [pathComponents, origin_join h, components_join_relative root hhead, List.map_append, ← List.append_assoc]
  rw [pathComponents, pathComponents, h, List.nil_append]

/-- A name on a path is neither empty nor a single dot, and has no separator in it. -/
theorem mem_components {path name : List UInt8} (h : name ∈ components path) : name ≠ [] ∧ name ≠ [0x2E] ∧ 0x2F ∉ name := by
  obtain ⟨hmem, hname⟩ := List.mem_filter.mp h
  obtain ⟨hne, hdot⟩ := of_decide_eq_true hname
  exact ⟨hne, hdot, Base.Split.splitOn_apart _ path name hmem⟩

/-- Where every component is a name, they are the names of the path, and none is the parent. -/
theorem normal_components {path : List UInt8} (h : (pathComponents path).all Component.isNormal = true) :
    origin path = [] ∧ pathComponents path = (components path).map Component.normal ∧ [0x2E, 0x2E] ∉ components path := by
  rw [pathComponents, List.all_append, Bool.and_eq_true] at h
  obtain ⟨horigin, hnames⟩ := h
  have hempty : origin path = [] := by
    unfold origin at horigin ⊢
    split
    · rename_i hroot
      rw [if_pos hroot] at horigin
      cases horigin
    · rename_i hroot
      rw [if_neg hroot] at horigin
      split
      · rename_i hdot
        rw [if_pos hdot] at horigin
        cases horigin
      · rfl
  have hparent : [0x2E, 0x2E] ∉ components path := by
    intro hmem
    have hnormal := List.all_eq_true.mp hnames _ (List.mem_map_of_mem hmem)
    cases hnormal
  refine ⟨hempty, ?_, hparent⟩
  rw [pathComponents, hempty, List.nil_append]
  refine List.map_congr_left fun name hname => ?_
  have hne : name ≠ [0x2E, 0x2E] := fun heq => hparent (heq ▸ hname)
  exact if_neg hne

/-- Whatever path is asked for, what it resolves to is the root joined with names: none is
    empty, a dot, the parent or has a separator in it, and the root's components come first. -/
theorem static_path_inside (root path : List UInt8) :
    resolveStaticPath root path = none ∨
      ∃ (relative : List UInt8) (names : List (List UInt8)), resolveStaticPath root path = some (join root relative) ∧
        pathComponents relative = names.map Component.normal ∧
        pathComponents (join root relative) = pathComponents root ++ names.map Component.normal ∧
        ∀ name ∈ names, name ≠ [] ∧ name ≠ [0x2E] ∧ name ≠ [0x2E, 0x2E] ∧ 0x2F ∉ name := by
  unfold resolveStaticPath
  split
  · exact .inl rfl
  · split
    · rename_i tail _
      dsimp only
      generalize (if tail = [] then indexHtml else tail) = relative
      split
      · rename_i hall
        obtain ⟨horigin, hnames, hparent⟩ := normal_components hall
        refine .inr ⟨relative, components relative, rfl, hnames, ?_, ?_⟩
        · rw [pathComponents_join horigin, hnames]
        · intro name hname
          obtain ⟨hne, hdot, hsep⟩ := mem_components hname
          exact ⟨hne, hdot, fun heq => hparent (heq ▸ hname), hsep⟩
      · exact .inl rfl
    · exact .inl rfl

/-- `/a/../b` under `/w`, and `/a/./b`. -/
example : resolveStaticPath [0x2F, 0x77] [0x2F, 0x61, 0x2F, 0x2E, 0x2E, 0x2F, 0x62] = none ∧
    resolveStaticPath [0x2F, 0x77] [0x2F, 0x61, 0x2F, 0x2E, 0x2F, 0x62] =
    some [0x2F, 0x77, 0x2F, 0x61, 0x2F, 0x2E, 0x2F, 0x62] := by
  decide +kernel

end Holdfast.Daemon
