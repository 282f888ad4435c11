import Mathlib.Data.List.Find
import Mathlib.Data.List.Nodup
import TypeScribe.Proofs.Rendering.StandardHint
/-!
# Common ancestors

A union of classes can be hinted by one of them to which all others are
related. The search for it goes by positions, so that two mentions of one
class still have to be related to each other; where the members differ it
is a search among the members (`commonAncestor?_eq`).
-/

namespace TypeScribe

namespace Renderer

/-- Two positions of a list without repetitions hold the same member only
if they are the same. -/
theorem beq_eq_of_mem_zipIdx {α : Type} [BEq α] [LawfulBEq α] {l : List α} (hl : l.Nodup)
    {x y : α × Nat} (hx : x ∈ l.zipIdx) (hy : y ∈ l.zipIdx) : (x.2 == y.2) = (y.1 == x.1) := by
  rw [List.mem_zipIdx_iff_getElem?] at hx hy
  rw [Bool.eq_iff_iff, beq_iff_eq, beq_iff_eq]
  constructor
  · intro hpos
    rw [hpos, hy] at hx
    exact Option.some.inj hx
  · intro heq
    obtain ⟨hlt, -⟩ := List.getElem?_eq_some_iff.1 hx
    exact (List.getElem?_inj hlt hl).1 (by rw [hx, hy, heq])

/-- Searching the positions for one that all others answer to is searching
the members, if these differ. -/
theorem find?_zipIdx {α : Type} [BEq α] [LawfulBEq α] {l : List α} (hl : l.Nodup)
    (r : α → α → Bool) :
    (l.zipIdx.find? fun x => l.zipIdx.all fun y => x.2 == y.2 || r x.1 y.1).map Prod.fst =
      l.find? fun a => l.all fun b => b == a || r a b := by
  have hall : ∀ x ∈ l.zipIdx, (l.zipIdx.all fun y => x.2 == y.2 || r x.1 y.1) =
      l.all fun b => b == x.1 || r x.1 b := by
    intro x hx
    calc (l.zipIdx.all fun y => x.2 == y.2 || r x.1 y.1)
      _ = l.zipIdx.all fun y => y.1 == x.1 || r x.1 y.1 := by
        rw [Bool.eq_iff_iff, List.all_eq_true, List.all_eq_true]
        exact forall₂_congr fun y hy => by rw [beq_eq_of_mem_zipIdx hl hx hy]
      _ = (l.zipIdx.map Prod.fst).all fun b => b == x.1 || r x.1 b := by
        rw [List.all_map]
        rfl
      _ = l.all fun b => b == x.1 || r x.1 b := by rw [List.zipIdx_map_fst]
  rw [List.find?_congr hall]
  conv_rhs => rw [← List.zipIdx_map_fst 0 l, List.find?_map]
  rw [List.zipIdx_map_fst]
  rfl

/-- Whether a type is a class that all members of a union are or are
related to. -/
def standsFor (h : Hierarchy) (ts : List Ty) : Ty → Bool
  | .object ref => ts.all fun t =>
    match t with
    | .object other => other == ref || h.related ref.identity other.identity
    | _ => false
  | _ => false

variable {c : Config} {h : Hierarchy}

/-- What is no class has no class to stand for it. -/
theorem find?_standsFor_eq_none {ts : List Ty} {t : Ty} (ht : t ∈ ts) (hnot : t.classRef? = none) :
    ts.find? (standsFor h ts) = none := by
  rw [List.find?_eq_none]
  intro s _ hs
  cases s with
  | object ref =>
    have hat := List.all_eq_true.1 hs t ht
    cases t <;> simp_all [Ty.classRef?]
  | _ => simp [standsFor] at hs

theorem eq_map_object {ts : List Ty} {refs : List ClassRef}
    (hrefs : ts.map Ty.classRef? = refs.map some) : ts = refs.map .object := by
  induction ts generalizing refs with
  | nil =>
    cases refs with
    | nil => rfl
    | cons ref refs => cases hrefs
  | cons t ts ih =>
    cases refs with
    | nil => cases hrefs
    | cons ref refs =>
      rw [List.map_cons, List.map_cons, List.cons.injEq] at hrefs
      have ht : t = .object ref := by
        cases t <;> simp_all [Ty.classRef?]
      rw [List.map_cons, ← ih hrefs.2, ht]

/-- A class stands for a union of classes if all the others are related to
it. -/
theorem standsFor_object (h : Hierarchy) (refs : List ClassRef) :
    standsFor h (refs.map .object) ∘ Ty.object = fun a =>
      refs.all fun b => b == a || h.related a.identity b.identity := by
  funext a
  simp only [Function.comp_apply, standsFor, List.all_map]
  rfl

/-- Among the names of different classes it makes no difference whether a
class is told from the others by its position or by itself. -/
theorem find?_identity {refs : List ClassRef} (hrefs : refs.Nodup) :
    ((refs.map ClassRef.identity).zipIdx.find? fun x =>
        (refs.map ClassRef.identity).zipIdx.all fun y =>
          x.2 == y.2 || h.related x.1 y.1).map Prod.fst =
      (refs.find? (standsFor h (refs.map .object) ∘ Ty.object)).map ClassRef.identity := by
  rw [standsFor_object, ← find?_zipIdx hrefs fun a b => h.related a.identity b.identity,
    List.zipIdx_map, List.find?_map, Option.map_map, Option.map_map]
  simp only [Function.comp_def, List.all_map, Prod.map_fst, Prod.map_snd, id_eq]

/-- **Among different members, the common ancestor is the first that
stands for them all.** -/
theorem commonAncestor?_eq {ts : List Ty} (hts : ts.Nodup) : (standard c h).commonAncestor? ts =
    ((ts.find? (standsFor h ts)).bind Ty.classRef?).map fun ref =>
      .rooted (Text.unrooted ref.identity) := by
  unfold commonAncestor?
  cases hrefs : ts.mapM Ty.classRef? with
  | none =>
    obtain ⟨t, ht, hnot⟩ := mapM_eq_none_iff.1 hrefs
    have hnames : (ts.mapM fun t => t.classRef?.map ClassRef.identity) = none :=
      mapM_eq_none_iff.2 ⟨t, ht, by rw [hnot, Option.map_none]⟩
    rw [hnames, find?_standsFor_eq_none ht hnot]
    rfl
  | some refs =>
    have hobjects := eq_map_object (mapM_eq_some_iff.1 hrefs)
    have hdistinct : refs.Nodup := by
      rw [hobjects] at hts
      exact List.Nodup.of_map _ hts
    have hnames : (ts.mapM fun t => t.classRef?.map ClassRef.identity) =
        some (refs.map ClassRef.identity) := by
      rw [mapM_eq_some_iff, hobjects, List.map_map, List.map_map]
      rfl
    calc (do
          let names ← ts.mapM fun t => t.classRef?.map ClassRef.identity
          let found ← names.zipIdx.find? fun x =>
            names.zipIdx.all fun y => x.2 == y.2 || h.related x.1 y.1
          return TypeHint.rooted (Text.unrooted found.1))
      _ = (((refs.map ClassRef.identity).zipIdx.find? fun x =>
            (refs.map ClassRef.identity).zipIdx.all fun y =>
              x.2 == y.2 || h.related x.1 y.1).map Prod.fst).map fun name =>
                .rooted (Text.unrooted name) := by
        rw [hnames, Option.map_map, Option.map_eq_bind]
        rfl
      _ = (refs.find? (standsFor h (refs.map .object) ∘ Ty.object)).map fun ref =>
          .rooted (Text.unrooted ref.identity) := by
        rw [find?_identity hdistinct, Option.map_map]
        rfl
      _ = ((ts.find? (standsFor h ts)).bind Ty.classRef?).map fun ref =>
          .rooted (Text.unrooted ref.identity) := by
        rw [hobjects, List.find?_map]
        cases refs.find? (standsFor h (refs.map .object) ∘ Ty.object) <;> rfl

end Renderer

end TypeScribe
