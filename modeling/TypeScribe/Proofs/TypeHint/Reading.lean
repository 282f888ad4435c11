import TypeScribe.Proofs.Rendering.DocFailure
import TypeScribe.Proofs.Rendering.Failure
import TypeScribe.Proofs.Syntax.Position
import TypeScribe.Proofs.Ty.Members
import TypeScribe.TypeHint.Tree
/-!
# Types that were read

No parser has to have made the tree a type is read from. A union in it may
have no members, or one, or the same one twice, or a union, and a question
mark may stand before anything that states a type. What is read is normal
all the same, since the reader normalises at every level
(`built_of_statedTy?`), and all there is to choose from was named in the
tree, `null` and `never` aside (`offers_of_statedTy?`). So what was read
can be hinted and documented, and nothing but a `static` that stands in
the tree keeps the short form from writing it.
-/

namespace TypeScribe

namespace Syntax

namespace Tree

variable {t : Tree} {cs : List Tree} {ty : Ty} {tys : List Ty}

/-! ## One level of a tree -/

/-- How a tree comes to state a type. -/
inductive Reading : Tree → Ty → Prop
  | name {cs : List Tree} {s : String} : firstToken? .ident cs = some s →
      Reading (.node .typeName cs) (.ofName s)
  | rooted {cs : List Tree} {s : String} : firstToken? .ident cs = some s →
      Reading (.node .fullyQualifiedName cs) (.object (.fullyQualified (Text.unrooted s)))
  | nullable {c : Tree} {cs : List Tree} {ty : Ty} : c ∈ cs → c.statedTy? = some ty →
      Reading (.node .nullableType cs) ty.nullable
  | union {cs : List Tree} {tys : List Ty} : (∀ ty ∈ tys, ∃ c ∈ cs, c.statedTy? = some ty) →
      Reading (.node .unionType cs) (.unionOf tys)

theorem exists_of_allTys? (h : allTys? cs = some tys) :
    ∀ ty ∈ tys, ∃ c ∈ cs, c.statedTy? = some ty := by
  induction cs generalizing tys with
  | nil =>
    cases h
    simp
  | cons c cs ih =>
    cases c with
    | token k s =>
      rw [allTys?] at h
      intro ty hty
      obtain ⟨d, hd, hstated⟩ := ih h ty hty
      exact ⟨d, by simp [hd], hstated⟩
    | node k ds =>
      rw [allTys?] at h
      obtain ⟨first, hfirst, h⟩ := Option.bind_eq_some_iff.1 h
      obtain ⟨rest, hrest, h⟩ := Option.bind_eq_some_iff.1 h
      cases h
      intro ty hty
      rcases List.mem_cons.1 hty with rfl | hty
      · exact ⟨.node k ds, by simp, hfirst⟩
      · obtain ⟨d, hd, hstated⟩ := ih hrest ty hty
        exact ⟨d, by simp [hd], hstated⟩

/-- **There are four ways to state a type.** -/
theorem reading_of_statedTy? (h : t.statedTy? = some ty) : Reading t ty := by
  unfold statedTy? at h
  split at h
  · obtain ⟨s, hs, rfl⟩ := Option.map_eq_some_iff.1 h
    exact .name hs
  · obtain ⟨s, hs, rfl⟩ := Option.map_eq_some_iff.1 h
    exact .rooted hs
  · obtain ⟨inner, hinner, rfl⟩ := Option.map_eq_some_iff.1 h
    rw [firstTy?_eq_findSome?] at hinner
    obtain ⟨c, hc, hstated⟩ := List.exists_of_findSome?_eq_some hinner
    exact .nullable hc hstated
  · obtain ⟨tys, htys, rfl⟩ := Option.map_eq_some_iff.1 h
    exact .union (exists_of_allTys? htys)
  · cases h

/-! ## What is read is normal -/

theorem built_ofName (s : String) : (Ty.ofName s).Built := by
  unfold Ty.ofName
  split
  · exact .leaf rfl
  · split
    · exact .array (.leaf rfl)
    · exact .iterable (.leaf rfl)
    all_goals exact .leaf rfl

theorem isUnion_ofName (s : String) : (Ty.ofName s).isUnion = false := by
  unfold Ty.ofName
  split
  · rfl
  · split <;> rfl

/-- **What a tree states is built with the normalising constructors**,
whatever tree it is. -/
theorem built_of_statedTy? (h : t.statedTy? = some ty) : ty.Built := by
  induction t using Tree.induction generalizing ty with
  | token k s => simp at h
  | node k cs ih =>
    cases reading_of_statedTy? h with
    | name _ => exact built_ofName _
    | rooted _ => exact .leaf rfl
    | nullable hc hinner => exact (ih _ hc hinner).nullable
    | union htys =>
      refine .unionOf fun ty hty => ?_
      obtain ⟨c, hc, hstated⟩ := htys ty hty
      exact ih c hc hstated

end Tree

/-! ## What is read was named -/

namespace Node

variable {n m : Node} {t : Tree} {s ty : Ty}

/-- Whether the node is the name of a type. -/
def IsName (n : Node) : Prop := n.kind = .typeName ∨ n.kind = .fullyQualifiedName

/-- What a node has to offer to a choice: `null`, which question marks
add, `never`, which an empty union is, and what the names in it state. -/
inductive Offers (n : Node) : Ty → Prop
  | null : n.Offers .null
  | never : n.Offers .never
  | named {d : Node} {s : Ty} : d ∈ n.descendants → d.IsName → d.tree.statedTy? = some s →
      n.Offers s

theorem Offers.mono (h : m.Offers s) (hsubset : m.descendants ⊆ n.descendants) : n.Offers s := by
  cases h with
  | null => exact .null
  | never => exact .never
  | named hd hname hstated => exact .named (hsubset hd) hname hstated

/-- What states a type among the children of a node is a node in it. -/
theorem exists_child (ht : t ∈ n.children) (hstated : t.statedTy? = some ty) :
    ∃ m : Node, m.tree = t ∧ m.descendants ⊆ n.descendants := by
  cases t with
  | token k s => simp at hstated
  | node k cs =>
    obtain ⟨skipped, after, hsplit⟩ := List.append_of_mem ht
    refine ⟨⟨k, cs, ⟨n.kind, skipped.reverse, after⟩ :: n.path⟩, rfl, fun d hd => ?_⟩
    rw [descendants, tree, hsplit, nodesOf]
    refine List.mem_cons_of_mem _ (mem_nodesAmong_append ?_)
    rwa [List.append_nil]

/-- A name offers what it states. -/
theorem offers_of_isName (hname : n.IsName) (h : n.tree.statedTy? = some ty)
    (hunion : ty.isUnion = false) (hs : s ∈ ty.unionMembers) : n.Offers s := by
  rw [Ty.unionMembers_of_isUnion hunion, List.mem_singleton] at hs
  rw [hs]
  exact .named (List.mem_of_mem_head? (head?_descendants n)) hname h

/-- **What there is to choose from in a type that was read** comes from
the node it was read from. -/
theorem offers_of_statedTy? (h : n.tree.statedTy? = some ty) (hs : s ∈ ty.unionMembers) :
    n.Offers s := by
  generalize ht : n.tree = t at h
  induction t using Tree.induction generalizing n ty with
  | token k s => cases ht
  | node _ _ ih =>
    obtain ⟨k, cs, path⟩ := n
    cases ht
    have hbelow : ∀ c ∈ cs, ∀ inner, c.statedTy? = some inner → s ∈ inner.unionMembers →
        (⟨k, cs, path⟩ : Node).Offers s := by
      intro c hc inner hinner hmem
      obtain ⟨m, hm, hsubset⟩ := exists_child (n := ⟨k, cs, path⟩) hc hinner
      exact (ih c hc hmem hm hinner).mono hsubset
    cases Tree.reading_of_statedTy? h with
    | name _ => exact offers_of_isName (.inl rfl) h (Tree.isUnion_ofName _) hs
    | rooted _ => exact offers_of_isName (.inr rfl) h rfl hs
    | @nullable c _ inner hc hinner =>
      have hnormal : ∀ t ∈ [inner, Ty.null], t.Normal := by
        have hbuilt := Tree.built_of_statedTy? hinner
        simpa using ⟨hbuilt.normal, (Ty.Built.leaf (t := .null) rfl).normal⟩
      rcases Ty.mem_unionMembers_unionOf hnormal hs with rfl | ⟨t, ht, hmem⟩
      · exact .never
      · rcases List.mem_pair.1 ht with rfl | rfl
        · exact hbelow c hc _ hinner hmem
        · rw [List.mem_singleton.1 hmem]
          exact .null
    | @union _ tys htys =>
      have hnormal : ∀ ty ∈ tys, ty.Normal := by
        intro ty hty
        obtain ⟨c, -, hstated⟩ := htys ty hty
        exact (Tree.built_of_statedTy? hstated).normal
      rcases Ty.mem_unionMembers_unionOf hnormal hs with rfl | ⟨inner, hinner, hmem⟩
      · exact .never
      · obtain ⟨c, hc, hstated⟩ := htys inner hinner
        exact hbelow c hc inner hstated hmem

/-! ## `static` -/

/-- Somewhere in the node, in one case or another, `static` is named. -/
def MentionsStatic (n : Node) : Prop :=
  ∃ d ∈ n.descendants, d.kind = .typeName ∧
    ∃ s, Tree.firstToken? .ident d.children = some s ∧ Text.lower s = "static"

/-- Of all names, only that of `static` leads to it. -/
theorem lower_of_reachesStatic {name : String} (h : (Ty.ofName name).ReachesStatic) :
    Text.lower name = "static" := by
  unfold Ty.ofName at h
  split at h
  · exact absurd h (Ty.not_reachesStatic rfl (by simp))
  · split at h
    · rw [Ty.reachesStatic_array] at h
      exact absurd h (Ty.not_reachesStatic rfl (by simp))
    case h_9 heq => exact heq
    all_goals exact absurd h (Ty.not_reachesStatic rfl (by simp))

/-- **A type that was read has a `static` only from the code.** -/
theorem mentionsStatic_of_statedTy? (h : n.tree.statedTy? = some ty) (hstatic : ty.ReachesStatic) :
    n.MentionsStatic := by
  obtain ⟨s, hs, hreach⟩ : ∃ s ∈ ty.unionMembers, s.ReachesStatic := by
    rcases ty.isUnion_or_eq_union with hunion | ⟨ts, rfl⟩
    · exact ⟨ty, by simp [Ty.unionMembers_of_isUnion hunion], hstatic⟩
    · exact Ty.reachesStatic_union.1 hstatic
  cases offers_of_statedTy? h hs with
  | null => exact absurd hreach (Ty.not_reachesStatic rfl (by simp))
  | never => exact absurd hreach (Ty.not_reachesStatic rfl (by simp))
  | @named d _ hd hname hstated =>
    obtain ⟨k, cs, path⟩ := d
    cases Tree.reading_of_statedTy? hstated with
    | name hfirst => exact ⟨_, hd, rfl, _, hfirst, lower_of_reachesStatic hreach⟩
    | rooted _ => exact absurd hreach (Ty.not_reachesStatic rfl (by simp))
    | nullable _ _ => rcases hname with hname | hname <;> cases hname
    | union _ => rcases hname with hname | hname <;> cases hname

end Node

end Syntax

namespace Renderer

open Syntax (Node)

/-- **Whatever is read can be rendered.** A node of any tree that states a
type states one whose unions are proper. By the default rules the type has
an outcome as a hint for every place and has a doc type, and its short
form fails at most for a `static` that is named in the node. -/
theorem statedTy?_renders {n : Node} {ty : Ty} (hty : n.tree.statedTy? = some ty) :
    ty.UnionsProper ∧
    ∀ (c : Config) (h : Hierarchy),
      (∀ slot, ∃ a?, (standard c h).hint slot ty = .ok a?) ∧
      (∃ d, (standard c h).docType ty = .ok d) ∧
      ∀ e, (standard c h).docText none ty = .error e →
        e = .unsupported .docText .staticRef ∧ n.MentionsStatic := by
  have hproper : ty.UnionsProper := (Syntax.Tree.built_of_statedTy? hty).normal.1
  refine ⟨hproper, fun c h => ⟨fun slot => ?_, exists_docType_standard c h ty, fun e he => ?_⟩⟩
  · exact exists_hint_of_not_clashes (not_clashes_of_choicesFlat hproper.choicesFlat)
  · obtain ⟨heq, hstatic⟩ := docText_eq_error_iff.1 he
    exact ⟨heq, Node.mentionsStatic_of_statedTy? hty hstatic⟩

/-- A question mark before a union that holds a union of one type under two
names and, as its last member, a nullable of what it began with. -/
def crowdedHint : Node :=
  let name (s : String) : Syntax.Tree := .node .typeName [.token .ident s]
  let mark : Syntax.Tree := .token .question "?"
  ⟨.nullableType, [mark, .node .unionType
    [name "STATIC", .node .unionType [name "int", name "Integer"],
      .node .nullableType [mark, name "Static"]]], []⟩

/-- Three choices are left of it, and the first cannot be written in the
short form. -/
theorem statedTy?_renders_crowdedHint :
    crowdedHint.tree.statedTy? = some (.union [.staticRef "static", .scalar .int, .null]) ∧
    (Ty.union [.staticRef "static", .scalar .int, .null]).UnionsProper ∧
    (standard {} .empty).docText none (.union [.staticRef "static", .scalar .int, .null]) =
      .error (.unsupported .docText .staticRef) ∧
    crowdedHint.MentionsStatic := by
  have hread : crowdedHint.tree.statedTy? =
      some (.union [.staticRef "static", .scalar .int, .null]) := rfl
  have hfails : (standard {} .empty).docText none
      (.union [.staticRef "static", .scalar .int, .null]) =
        .error (.unsupported .docText .staticRef) := rfl
  obtain ⟨hproper, hrenders⟩ := statedTy?_renders hread
  obtain ⟨-, -, htext⟩ := hrenders {} .empty
  exact ⟨hread, hproper, hfails, (htext _ hfails).2⟩

end Renderer

end TypeScribe
