import TypeScribe.Syntax.KindSet
/-!
# What a set of kinds keeps of a list

A list of kinds is put into a set one kind at a time, and a kind may come
again or come late. The word that results keeps which kinds there were and
nothing more (`kept_of_lists`): lists give the same word exactly if they
have the same kinds. A listing goes the other way. It tries the bits in
order and looks up the kind of each that is set; no number is refused,
since all below the bound are kinds' (`map_raw_shown`).
-/

namespace TypeScribe

namespace Syntax

namespace KindSet

variable {s t : KindSet} {k l : Kind}

/-! ## Equality -/

/-- **Sets are equal if and only if they have the same members.** -/
theorem eq_iff_contains : s = t ↔ ∀ k, s.contains k = true ↔ t.contains k = true := by
  constructor
  · rintro rfl k
    rfl
  · intro h
    exact ext_contains fun k => Bool.eq_iff_iff.2 (h k)

/-- The loop over the numbers of node kinds sets the bits of these. -/
theorem contains_nodes : nodes.contains k = k.isNode := by
  have hroot : Kind.root.raw + (Kind.sentinel.raw - Kind.root.raw) = Kind.sentinel.raw := rfl
  have hlast := k.raw_lt_sentinel_iff
  have hwidth := k.raw_lt
  rw [contains_eq_getLsbD, nodes, getLsbD_bitsFrom, hroot, Kind.isNode, Kind.isToken]
  grind

theorem ofList_eq_nodes_iff {ks : List Kind} :
    ofList ks = nodes ↔ ∀ k, k ∈ ks ↔ k.isNode = true := by
  rw [eq_iff_contains]
  exact forall_congr' fun k => by rw [contains_ofList, contains_nodes]

theorem ofList_eq_ofList_iff {ks ls : List Kind} :
    ofList ks = ofList ls ↔ ∀ k, k ∈ ks ↔ k ∈ ls := by
  rw [eq_iff_contains]
  exact forall_congr' fun k => by rw [contains_ofList, contains_ofList]

theorem ofList_eq_empty_iff {ks : List Kind} : ofList ks = empty ↔ ks = [] := by
  rw [eq_iff_contains, List.eq_nil_iff_forall_not_mem]
  exact forall_congr' fun k => by simp [contains_ofList, contains_empty]

theorem ofList_eq_single_iff {ks : List Kind} :
    ofList ks = single k ↔ ks ≠ [] ∧ ∀ l ∈ ks, l = k := by
  have hmembers : ofList ks = single k ↔ ∀ l, l ∈ ks ↔ l = k := by
    rw [eq_iff_contains]
    exact forall_congr' fun l => by rw [contains_ofList, contains_single, decide_eq_true_iff]
  rw [hmembers]
  constructor
  · intro h
    exact ⟨List.ne_nil_of_mem ((h k).2 rfl), fun l => (h l).1⟩
  · rintro ⟨hne, hall⟩ l
    obtain ⟨first, hfirst⟩ := List.exists_mem_of_ne_nil ks hne
    refine ⟨hall l, ?_⟩
    rintro rfl
    exact hall first hfirst ▸ hfirst

/-! ## Listings -/

/-- **A listing drops no bit** below the bound. -/
theorem map_raw_shown (s : KindSet) :
    s.shown.map Kind.raw = (List.range Kind.sentinel.raw).filter s.holds := by
  have hlookup (ns : List Nat) (hns : ∀ n ∈ ns, n < Kind.sentinel.raw) :
      (ns.filterMap Kind.ofRaw?).map Kind.raw = ns := by
    induction ns with
    | nil => rfl
    | cons n ns ih =>
      obtain ⟨k, hk, rfl⟩ := Kind.exists_ofRaw?_eq (hns n List.mem_cons_self)
      rw [List.filterMap_cons_some hk, List.map_cons,
        ih fun m hm => hns m (List.mem_cons_of_mem _ hm)]
  refine hlookup _ fun n hn => ?_
  exact List.mem_range.1 (List.mem_filter.1 hn).1

theorem mem_shown_iff : k ∈ s.shown ↔ s.contains k = true ∧ k ≠ .sentinel := by
  have hraw : k ∈ s.shown ↔ k.raw ∈ s.shown.map Kind.raw := by
    refine ⟨List.mem_map_of_mem, fun h => ?_⟩
    obtain ⟨l, hl, heq⟩ := List.mem_map.1 h
    exact Kind.raw_injective heq ▸ hl
  rw [hraw, map_raw_shown, List.mem_filter, List.mem_range, k.raw_lt_sentinel_iff, contains,
    and_comm]

/-- **A listing goes by the numbers.** -/
theorem pairwise_raw_shown (s : KindSet) : s.shown.Pairwise fun k l => k.raw < l.raw := by
  have hnumbers : (s.shown.map Kind.raw).Pairwise (· < ·) := by
    rw [map_raw_shown]
    exact List.pairwise_lt_range.filter _
  exact List.pairwise_map.1 hnumbers

/-- **What a set keeps of a list** is which kinds are in it, whatever their
order and however often they come. These are its members, and lists with
the same kinds give the same set. Only the empty list gives the empty set,
and the set of all node kinds comes only of lists of exactly these. Of a
list with one kind alone comes the single set of that kind. A listing names
the kinds of the list but the bound, each once and by their numbers. -/
theorem kept_of_lists (ks ls : List Kind) (k : Kind) :
    ((ofList ks).contains k = true ↔ k ∈ ks) ∧
    (ofList ks = ofList ls ↔ ∀ l, l ∈ ks ↔ l ∈ ls) ∧
    (ofList ks = empty ↔ ks = []) ∧
    (ofList ks = nodes ↔ ∀ l, l ∈ ks ↔ l.isNode = true) ∧
    (ofList ks = single k ↔ ks ≠ [] ∧ ∀ l ∈ ks, l = k) ∧
    ∃ shown : List Kind,
      (ofList ks).text = "\x7b" ++ ", ".intercalate (shown.map Kind.label) ++ "\x7d" ∧
      (shown.Pairwise fun l m => l.raw < m.raw) ∧ ∀ l, l ∈ shown ↔ l ∈ ks ∧ l ≠ .sentinel := by
  refine ⟨contains_ofList ks k, ofList_eq_ofList_iff, ofList_eq_empty_iff, ofList_eq_nodes_iff,
    ofList_eq_single_iff, (ofList ks).shown, rfl, pairwise_raw_shown _, fun l => ?_⟩
  rw [mem_shown_iff, contains_ofList]

/-- The bound is a member like any other and is left out of the listing. -/
example : (ofList [.var, .sentinel, .block, .var]).text = "\x7bBlock, Variable\x7d" := by decide

end KindSet

end Syntax

end TypeScribe
