import TypeScribe.Proofs.Rendering.ProperDocTypes
import TypeScribe.Proofs.Text.Parentheses
/-!
# Reading doc types off their texts

Nothing in a text tells the members of a member from members: `A|(B|C)` is
not how a union in a union is written, and neither is an intersection in an
intersection. Everything else can be told. A bar outside of parentheses
separates the alternatives of a union, and an ampersand there the members
of an intersection if there are no bars; what is left is a name or an
array, and its last characters say which, and whether the item was put in
parentheses. So with names that are not made of these characters, two doc
types look alike exactly if they are the same once the members of members
are put in their place (`text_eq_text_iff`).
-/

namespace TypeScribe

namespace DocType

open Text (row Leads outerSegments)

variable {a b d e : DocType} {ds es : List DocType}

/-! ## Members of members -/

/-- What a doc type adds to a union: a union's members, or the doc type
alone. -/
def unionMembers : DocType → List DocType
  | union ds => ds
  | d => [d]

/-- What a doc type adds to an intersection: an intersection's members, or
the doc type alone. -/
def intersectionMembers : DocType → List DocType
  | intersection ds => ds
  | d => [d]

mutual

/-- The doc type with the members of a union in the place of the union
where it is itself a member of a union, and the same for intersections, at
every depth. -/
def inlined : DocType → DocType
  | name s => name s
  | array d => array d.inlined
  | union ds => union ((inlinedAll ds).flatMap unionMembers)
  | intersection ds => intersection ((inlinedAll ds).flatMap intersectionMembers)

/-- Several doc types with the members of members in their place. -/
def inlinedAll : List DocType → List DocType
  | [] => []
  | d :: ds => d.inlined :: inlinedAll ds

end

theorem inlinedAll_eq_map (ds : List DocType) : inlinedAll ds = ds.map inlined := by
  induction ds with
  | nil => rfl
  | cons d ds ih => rw [inlinedAll, ih, List.map_cons]

theorem inlined_union (ds : List DocType) :
    (union ds).inlined = union (ds.flatMap fun d => unionMembers d.inlined) := by
  rw [inlined, inlinedAll_eq_map, List.flatMap_map]

theorem inlined_intersection (ds : List DocType) :
    (intersection ds).inlined =
      intersection (ds.flatMap fun d => intersectionMembers d.inlined) := by
  rw [inlined, inlinedAll_eq_map, List.flatMap_map]

theorem isUnion_inlined (d : DocType) : d.inlined.isUnion = d.isUnion := by
  cases d <;> rw [inlined] <;> rfl

theorem isCompound_inlined (d : DocType) : d.inlined.isCompound = d.isCompound := by
  cases d <;> rw [inlined] <;> rfl

theorem isUnion_of_isCompound (h : d.isCompound = false) : d.isUnion = false := by
  rcases isUnion_or_eq_union d with hd | ⟨ds, rfl⟩
  · exact hd
  · exact h

/-! ## Legible doc types -/

/-- The characters that hold doc types together. -/
def marks : List Char := ['|', '&', '(', ')', '[', ']']

/-- A doc type with names that are not made of marks, with two members or
more in every union and intersection, and with no union as a member of an
intersection, where it would stand without parentheses. -/
inductive Legible : DocType → Prop
  | name {s : String} : (∀ c ∈ s.toList, c ∉ marks) → Legible (name s)
  | array {d : DocType} : Legible d → Legible (array d)
  | union {ds : List DocType} : 2 ≤ ds.length → (∀ d ∈ ds, Legible d) → Legible (union ds)
  | intersection {ds : List DocType} : 2 ≤ ds.length → (∀ d ∈ ds, Legible d) →
      (∀ d ∈ ds, d.isUnion = false) → Legible (intersection ds)

/-- A legible doc type in which no member has members to put in its
place. -/
inductive Inlined : DocType → Prop
  | name {s : String} : (∀ c ∈ s.toList, c ∉ marks) → Inlined (name s)
  | array {d : DocType} : Inlined d → Inlined (array d)
  | union {ds : List DocType} : 2 ≤ ds.length → (∀ d ∈ ds, Inlined d) →
      (∀ d ∈ ds, d.isUnion = false) → Inlined (union ds)
  | intersection {ds : List DocType} : 2 ≤ ds.length → (∀ d ∈ ds, Inlined d) →
      (∀ d ∈ ds, d.isCompound = false) → Inlined (intersection ds)

/-- What an inlined doc type adds to a union is inlined and no union. -/
theorem Inlined.of_mem_unionMembers (h : d.Inlined) (he : e ∈ unionMembers d) :
    e.Inlined ∧ e.isUnion = false := by
  cases h with
  | union _ hds hflat => exact ⟨hds e he, hflat e he⟩
  | name hs =>
    obtain rfl := List.mem_singleton.1 he
    exact ⟨.name hs, rfl⟩
  | array hd =>
    obtain rfl := List.mem_singleton.1 he
    exact ⟨.array hd, rfl⟩
  | intersection htwo hds hflat =>
    obtain rfl := List.mem_singleton.1 he
    exact ⟨.intersection htwo hds hflat, rfl⟩

/-- What it adds to an intersection is no intersection, nor a union unless
it was one. -/
theorem Inlined.of_mem_intersectionMembers (h : d.Inlined) (hunion : d.isUnion = false)
    (he : e ∈ intersectionMembers d) : e.Inlined ∧ e.isCompound = false := by
  cases h with
  | intersection _ hds hflat => exact ⟨hds e he, hflat e he⟩
  | name hs =>
    obtain rfl := List.mem_singleton.1 he
    exact ⟨.name hs, rfl⟩
  | array hd =>
    obtain rfl := List.mem_singleton.1 he
    exact ⟨.array hd, rfl⟩
  | union _ _ _ => cases hunion

theorem Inlined.unionMembers_ne_nil (h : d.Inlined) : unionMembers d ≠ [] := by
  cases h with
  | union htwo _ _ => exact List.ne_nil_of_length_pos (by rw [unionMembers]; omega)
  | _ => exact List.cons_ne_nil _ _

theorem Inlined.intersectionMembers_ne_nil (h : d.Inlined) : intersectionMembers d ≠ [] := by
  cases h with
  | intersection htwo _ _ => exact List.ne_nil_of_length_pos (by rw [intersectionMembers]; omega)
  | _ => exact List.cons_ne_nil _ _

/-- Whoever adds something for each member has as many members at least. -/
theorem length_le_length_flatMap {f : DocType → List DocType} (hf : ∀ d ∈ ds, f d ≠ []) :
    ds.length ≤ (ds.flatMap f).length := by
  induction ds with
  | nil => exact Nat.le_refl 0
  | cons d ds ih =>
    have hhead := List.length_pos_iff.2 (hf d (by simp))
    have hrest := ih fun e he => hf e (by simp [he])
    rw [List.flatMap_cons, List.length_append, List.length_cons]
    omega

/-- **What is legible is inlined in the end.** -/
theorem Legible.inlined (h : d.Legible) : d.inlined.Inlined := by
  induction h with
  | name hs =>
    rw [DocType.inlined]
    exact .name hs
  | array _ ih =>
    rw [DocType.inlined]
    exact .array ih
  | @union ds htwo _ ih =>
    rw [inlined_union]
    have hsome := length_le_length_flatMap fun d hd => (ih d hd).unionMembers_ne_nil
    have hmembers : ∀ e ∈ ds.flatMap fun d => unionMembers d.inlined,
        e.Inlined ∧ e.isUnion = false := by
      intro e he
      obtain ⟨d, hd, hed⟩ := List.mem_flatMap.1 he
      exact (ih d hd).of_mem_unionMembers hed
    exact .union (by omega) (fun e he => (hmembers e he).1) fun e he => (hmembers e he).2
  | @intersection ds htwo _ hunion ih =>
    rw [inlined_intersection]
    have hsome := length_le_length_flatMap fun d hd => (ih d hd).intersectionMembers_ne_nil
    have hmembers : ∀ e ∈ ds.flatMap fun d => intersectionMembers d.inlined,
        e.Inlined ∧ e.isCompound = false := by
      intro e he
      obtain ⟨d, hd, hed⟩ := List.mem_flatMap.1 he
      exact (ih d hd).of_mem_intersectionMembers ((isUnion_inlined d).trans (hunion d hd)) hed
    exact .intersection (by omega) (fun e he => (hmembers e he).1) fun e he => (hmembers e he).2

/-! ## Members of members are written as members -/

theorem text_intersection (ds : List DocType) :
    (intersection ds).text = "&".intercalate (ds.map text) := by
  rw [text, texts_eq_map]

/-- A doc type is written as what it adds to a union. -/
theorem text_eq_row_unionMembers (d : DocType) : d.text = row ((unionMembers d).map text) := by
  cases d with
  | union ds => exact text_union ds
  | _ => exact String.intercalate_singleton.symm

/-- And as what it adds to an intersection. -/
theorem text_eq_intercalate_intersectionMembers (d : DocType) :
    d.text = "&".intercalate ((intersectionMembers d).map text) := by
  cases d with
  | intersection ds => exact text_intersection ds
  | _ => exact String.intercalate_singleton.symm

/-- Rows in a row are one row. -/
theorem intercalate_flatMap (sep : String) {f : DocType → List String} (hf : ∀ d ∈ ds, f d ≠ []) :
    sep.intercalate (ds.flatMap f) = sep.intercalate (ds.map fun d => sep.intercalate (f d)) := by
  induction ds with
  | nil => rfl
  | cons d ds ih =>
    have hhead := hf d (by simp)
    have hrest := ih fun e he => hf e (by simp [he])
    rcases eq_or_ne ds [] with rfl | hne
    · simp
    · have hmore : ds.flatMap f ≠ [] := by
        obtain ⟨e, he⟩ := List.exists_mem_of_ne_nil ds hne
        exact fun hnil => hf e (by simp [he]) (List.flatMap_eq_nil_iff.1 hnil e he)
      rw [List.flatMap_cons, String.intercalate_append_of_ne_nil hhead hmore, hrest, List.map_cons,
        String.intercalate_cons_of_ne_nil (by simpa using hne)]

/-- Members of members stand in a row as the members do, where a member is
written as the row of its own. -/
theorem text_flatMap_members {sep : String} {members : DocType → List DocType}
    (hwritten : ∀ d, d.text = sep.intercalate ((members d).map text))
    (hsome : ∀ d ∈ ds, members d.inlined ≠ []) (htext : ∀ d ∈ ds, d.inlined.text = d.text) :
    sep.intercalate ((ds.flatMap fun d => members d.inlined).map text) =
      sep.intercalate (ds.map text) := by
  rw [List.map_flatMap, intercalate_flatMap sep fun d hd => by simpa using hsome d hd]
  refine congrArg sep.intercalate (List.map_congr_left fun d hd => ?_)
  rw [← hwritten, htext d hd]

/-- **Inlining does not show.** -/
theorem Legible.text_inlined (h : d.Legible) : d.inlined.text = d.text := by
  induction h with
  | name _ => rw [DocType.inlined]
  | @array d _ ih => rw [DocType.inlined, text, text, isCompound_inlined, ih]
  | @union ds _ hds ih =>
    rw [inlined_union, text_union, text_union]
    exact text_flatMap_members text_eq_row_unionMembers
      (fun d hd => (hds d hd).inlined.unionMembers_ne_nil) ih
  | @intersection ds _ hds _ ih =>
    rw [inlined_intersection, text_intersection, text_intersection]
    exact text_flatMap_members text_eq_intercalate_intersectionMembers
      (fun d hd => (hds d hd).inlined.intersectionMembers_ne_nil) ih

/-! ## Reading -/

/-- A separator is out of sight in a doc type: in parentheses, or because
the doc type has nothing to separate by it. -/
def Hides (sep : Char) (depth : Nat) (d : DocType) : Prop :=
  0 < depth ∨ sep = '|' ∧ d.isUnion = false ∨ sep = '&' ∧ d.isCompound = false

theorem Hides.pos_of_eq {sep c : Char} {depth : Nat} (h : Hides sep depth d) (hbar : c ≠ '|')
    (hamp : c ≠ '&') (hc : c = sep) : 0 < depth := by
  rcases h with hpos | ⟨rfl, -⟩ | ⟨rfl, -⟩
  · exact hpos
  · exact absurd hc hbar
  · exact absurd hc hamp

theorem ne_of_not_mem_marks {c m : Char} (hc : c ∉ marks) (hm : m ∈ marks) : c ≠ m := by
  rintro rfl
  exact hc hm

/-- Doc types in a row lead back if each does and what joins them does. -/
theorem leads_joined {sep : Char} {depth : Nat} {joint : String}
    (hds : ∀ d ∈ ds, Leads sep depth d.text.toList depth)
    (hjoint : Leads sep depth joint.toList depth) :
    Leads sep depth (joint.intercalate (ds.map text)).toList depth := by
  rw [String.toList_intercalate, List.map_map]
  exact Text.leads_intercalate (List.forall_mem_map.2 hds) hjoint

/-- **The text of a doc type leads back to the depth it starts at**, and a
separator the doc type hides does not show on the way. -/
theorem Inlined.leads_text {sep : Char} {depth : Nat} (h : d.Inlined) (hides : Hides sep depth d) :
    Leads sep depth d.text.toList depth := by
  induction h generalizing depth with
  | @name s hs =>
    rw [text]
    refine Text.leads_of_forall fun c hc => ?_
    have hne : ∀ m ∈ marks, c ≠ m := fun m => ne_of_not_mem_marks (hs c hc)
    exact ⟨hne '(' (by decide), hne ')' (by decide),
      hides.pos_of_eq (hne '|' (by decide)) (hne '&' (by decide))⟩
  | @array d hd ih =>
    have hmark : Leads sep depth "[]".toList depth := by
      refine Text.leads_of_forall fun c hc => ?_
      have hbracket : c = '[' ∨ c = ']' := by simpa using hc
      rcases hbracket with rfl | rfl
      · exact ⟨by decide, by decide, hides.pos_of_eq (by decide) (by decide)⟩
      · exact ⟨by decide, by decide, hides.pos_of_eq (by decide) (by decide)⟩
    rw [text, String.toList_append]
    refine Leads.append ?_ hmark
    cases hcompound : d.isCompound with
    | true =>
      have hinside := ih (.inl (Nat.succ_pos depth))
      rw [if_pos rfl, String.toList_append, String.toList_append]
      exact hinside.parenthesised (hides.pos_of_eq (by decide) (by decide))
    | false =>
      rw [if_neg (by decide)]
      refine ih (hides.imp_right (Or.imp ?_ ?_))
      · exact fun hbar => ⟨hbar.1, isUnion_of_isCompound hcompound⟩
      · exact fun hamp => ⟨hamp.1, hcompound⟩
  | @union ds _ hds _ ih =>
    -- a union hides its bars in parentheses only, and whatever its members show
    have hpos : 0 < depth := by
      rcases hides with hpos | ⟨-, hunion⟩ | ⟨-, hcompound⟩
      · exact hpos
      · cases hunion
      · cases hcompound
    rw [text_union, row]
    refine leads_joined (fun d hd => ih d hd (.inl hpos)) (Text.leads_of_forall fun c hc => ?_)
    obtain rfl : c = '|' := by simpa using hc
    exact ⟨by decide, by decide, fun _ => hpos⟩
  | @intersection ds _ hds hflat ih =>
    have hmember : ∀ d ∈ ds, Hides sep depth d := by
      intro d hd
      rcases hides with hpos | ⟨hbar, -⟩ | ⟨-, hcompound⟩
      · exact .inl hpos
      · exact .inr (.inl ⟨hbar, isUnion_of_isCompound (hflat d hd)⟩)
      · cases hcompound
    rw [text_intersection]
    refine leads_joined (fun d hd => ih d hd (hmember d hd)) (Text.leads_of_forall fun c hc => ?_)
    obtain rfl : c = '&' := by simpa using hc
    refine ⟨by decide, by decide, fun hsep => ?_⟩
    rcases hides with hpos | ⟨hbar, -⟩ | ⟨-, hcompound⟩
    · exact hpos
    · exact absurd (hsep.trans hbar) (by decide)
    · cases hcompound

/-- **Members are found again** where they were joined, if they hide the
separator. -/
theorem outerSegments_joined {sep : Char} {joint : String} (hjoint : joint.toList = [sep])
    (hsome : ds ≠ []) (hds : ∀ d ∈ ds, d.Inlined ∧ Hides sep 0 d) :
    outerSegments sep 0 (joint.intercalate (ds.map text)).toList =
      (ds.map text).map String.toList := by
  rw [String.toList_intercalate, hjoint]
  refine Text.outerSegments_intercalate (by simpa using hsome) ?_
  rw [List.map_map, List.forall_mem_map]
  intro d hd
  obtain ⟨hinlined, hides⟩ := hds d hd
  exact hinlined.leads_text hides

/-- The alternatives stand between the bars. -/
theorem Inlined.outerSegments_bar (h : d.Inlined) :
    outerSegments '|' 0 d.text.toList = ((unionMembers d).map text).map String.toList := by
  rw [text_eq_row_unionMembers d]
  refine outerSegments_joined rfl h.unionMembers_ne_nil fun e he => ?_
  obtain ⟨hinlined, hunion⟩ := h.of_mem_unionMembers he
  exact ⟨hinlined, .inr (.inl ⟨rfl, hunion⟩)⟩

/-- Without bars, the members of an intersection stand between the
ampersands. -/
theorem Inlined.outerSegments_amp (h : d.Inlined) (hunion : d.isUnion = false) :
    outerSegments '&' 0 d.text.toList = ((intersectionMembers d).map text).map String.toList := by
  rw [text_eq_intercalate_intersectionMembers d]
  refine outerSegments_joined rfl h.intersectionMembers_ne_nil fun e he => ?_
  obtain ⟨hinlined, hcompound⟩ := h.of_mem_intersectionMembers hunion he
  exact ⟨hinlined, .inr (.inr ⟨rfl, hcompound⟩)⟩

/-- Doc types that look alike are cut into texts that are alike. -/
theorem map_text_eq_of_outerSegments {sep : Char} (h : a.text = b.text)
    (ha : outerSegments sep 0 a.text.toList = (ds.map text).map String.toList)
    (hb : outerSegments sep 0 b.text.toList = (es.map text).map String.toList) :
    ds.map text = es.map text := by
  rw [h, hb] at ha
  exact (List.map_injective_iff.2 (fun _ _ => String.toList_inj.1) ha).symm

theorem map_text_unionMembers_eq (ha : a.Inlined) (hb : b.Inlined) (h : a.text = b.text) :
    (unionMembers a).map text = (unionMembers b).map text :=
  map_text_eq_of_outerSegments h ha.outerSegments_bar hb.outerSegments_bar

theorem map_text_intersectionMembers_eq (ha : a.Inlined) (hb : b.Inlined)
    (haunion : a.isUnion = false) (hbunion : b.isUnion = false) (h : a.text = b.text) :
    (intersectionMembers a).map text = (intersectionMembers b).map text :=
  map_text_eq_of_outerSegments h (ha.outerSegments_amp haunion) (hb.outerSegments_amp hbunion)

/-- A union is what has two alternatives or more. -/
theorem Inlined.isUnion_iff (h : d.Inlined) :
    d.isUnion = true ↔ 2 ≤ ((unionMembers d).map text).length := by
  rw [List.length_map]
  cases h with
  | union htwo _ _ => exact iff_of_true rfl htwo
  | _ => simp [isUnion, unionMembers]

theorem Inlined.isCompound_iff (h : d.Inlined) (hunion : d.isUnion = false) :
    d.isCompound = true ↔ 2 ≤ ((intersectionMembers d).map text).length := by
  rw [List.length_map]
  cases h with
  | intersection htwo _ _ => exact iff_of_true rfl htwo
  | union _ _ _ => cases hunion
  | _ => simp [isCompound, intersectionMembers]

/-- **The form can be told**: unions look like unions only. -/
theorem isUnion_eq_of_text_eq (ha : a.Inlined) (hb : b.Inlined) (h : a.text = b.text) :
    a.isUnion = b.isUnion := by
  rw [Bool.eq_iff_iff, ha.isUnion_iff, hb.isUnion_iff, map_text_unionMembers_eq ha hb h]

/-- And what is in parentheses below an array looks like nothing else. -/
theorem isCompound_eq_of_text_eq (ha : a.Inlined) (hb : b.Inlined) (h : a.text = b.text) :
    a.isCompound = b.isCompound := by
  have hform := isUnion_eq_of_text_eq ha hb h
  cases haunion : a.isUnion with
  | true =>
    rw [haunion] at hform
    obtain ⟨ds, rfl⟩ := (isUnion_or_eq_union a).resolve_left (by simp [haunion])
    obtain ⟨es, rfl⟩ := (isUnion_or_eq_union b).resolve_left (by simp [← hform])
    rfl
  | false =>
    have hbunion : b.isUnion = false := hform.symm.trans haunion
    rw [Bool.eq_iff_iff, ha.isCompound_iff haunion, hb.isCompound_iff hbunion,
      map_text_intersectionMembers_eq ha hb haunion hbunion h]

/-- A name has no brackets. -/
theorem text_array_ne_name {s : String} (hs : ∀ c ∈ s.toList, c ∉ marks) :
    (array d).text ≠ s := by
  rintro rfl
  refine hs ']' ?_ (by decide)
  rw [text, String.toList_append]
  exact List.mem_append_right _ (by decide)

/-- What is not put in parentheses does not end with one. -/
theorem Inlined.getLast?_text_ne (h : d.Inlined) (hcompound : d.isCompound = false) :
    d.text.toList.getLast? ≠ some ')' := by
  cases h with
  | @name s hs =>
    rw [text]
    exact fun hlast => hs ')' (List.mem_of_getLast? hlast) (by decide)
  | array _ =>
    have hmark : "[]".toList.getLast? = some ']' := rfl
    rw [text, String.toList_append, List.getLast?_append, hmark, Option.some_or]
    decide
  | union _ _ _ => cases hcompound
  | intersection _ _ _ => cases hcompound

/-- Something in parentheses looks like nothing without them. -/
theorem Inlined.text_ne_parenthesised (h : d.Inlined) (hcompound : d.isCompound = false)
    (s : String) : d.text ≠ "(" ++ s ++ ")" := by
  intro htext
  have hclose : ")".toList.getLast? = some ')' := rfl
  refine h.getLast?_text_ne hcompound ?_
  rw [htext, String.toList_append, List.getLast?_append, hclose, Option.some_or]

/-- Arrays that look alike have items that look alike. -/
theorem text_eq_of_text_array_eq (hd : d.Inlined) (he : e.Inlined)
    (h : (array d).text = (array e).text) : d.text = e.text := by
  rw [text, text, String.append_left_inj] at h
  cases hdcompound : d.isCompound <;> cases hecompound : e.isCompound <;>
    simp only [hdcompound, hecompound, if_true, Bool.false_eq_true, if_false] at h
  · exact h
  · exact absurd h (hd.text_ne_parenthesised hdcompound _)
  · exact absurd h.symm (he.text_ne_parenthesised hecompound _)
  · exact (String.append_right_inj "(").1 ((String.append_left_inj ")").1 h)

/-- Lists of doc types that look alike are equal if their members are told
apart. -/
theorem eq_of_map_text_eq (hds : ∀ d ∈ ds, ∀ e : DocType, e.Inlined → d.text = e.text → d = e)
    (hes : ∀ e ∈ es, e.Inlined) (h : ds.map text = es.map text) : ds = es := by
  induction ds generalizing es with
  | nil => exact (List.map_eq_nil_iff.1 h.symm).symm
  | cons d ds ih =>
    obtain ⟨e, es, rfl, hhead, htail⟩ := List.map_eq_cons_iff.1 h.symm
    have hde : d = e := hds d (by simp) e (hes e (by simp)) hhead.symm
    have hrest : ds = es :=
      ih (fun d hd => hds d (by simp [hd])) (fun e he => hes e (by simp [he])) htail.symm
    rw [hde, hrest]

/-- **Inlined doc types that look alike are equal.** -/
theorem Inlined.eq_of_text_eq (ha : a.Inlined) (hb : b.Inlined) (h : a.text = b.text) : a = b := by
  induction ha generalizing b with
  | name hs =>
    have hcompound := isCompound_eq_of_text_eq (.name hs) hb h
    cases hb with
    | name _ => exact congrArg DocType.name h
    | array _ => exact absurd h.symm (text_array_ne_name hs)
    | union _ _ _ => cases hcompound
    | intersection _ _ _ => cases hcompound
  | array hd ih =>
    have hcompound := isCompound_eq_of_text_eq (.array hd) hb h
    cases hb with
    | name hs => exact absurd h (text_array_ne_name hs)
    | array he => exact congrArg DocType.array (ih he (text_eq_of_text_array_eq hd he h))
    | union _ _ _ => cases hcompound
    | intersection _ _ _ => cases hcompound
  | @union ds htwo hds hflat ih =>
    have ha : (DocType.union ds).Inlined := .union htwo hds hflat
    have hunion := isUnion_eq_of_text_eq ha hb h
    have hmembers := map_text_unionMembers_eq ha hb h
    cases hb with
    | union _ hes _ => exact congrArg DocType.union (eq_of_map_text_eq ih hes hmembers)
    | name _ => cases hunion
    | array _ => cases hunion
    | intersection _ _ _ => cases hunion
  | @intersection ds htwo hds hflat ih =>
    have ha : (DocType.intersection ds).Inlined := .intersection htwo hds hflat
    have hunion : b.isUnion = false := (isUnion_eq_of_text_eq ha hb h).symm
    have hcompound := isCompound_eq_of_text_eq ha hb h
    have hmembers := map_text_intersectionMembers_eq ha hb rfl hunion h
    cases hb with
    | intersection _ hes _ =>
      exact congrArg DocType.intersection (eq_of_map_text_eq ih hes hmembers)
    | name _ => cases hcompound
    | array _ => cases hcompound
    | union _ _ _ => cases hunion

/-! ## Looking alike -/

/-- **Legible doc types look alike exactly if they are the same inlined.**
The text of a doc type leaves nothing open but how the members of unions,
and those of intersections, are put together. -/
theorem text_eq_text_iff (ha : a.Legible) (hb : b.Legible) :
    a.text = b.text ↔ a.inlined = b.inlined := by
  constructor
  · intro htext
    refine ha.inlined.eq_of_text_eq hb.inlined ?_
    rw [ha.text_inlined, hb.text_inlined, htext]
  · intro hinlined
    rw [← ha.text_inlined, ← hb.text_inlined, hinlined]

/-- The same alternatives in other groups are other doc types of one
text. -/
theorem text_eq_of_regrouped :
    let ids := array (intersection [name "A", name "B"])
    let left := union [union [name "int", name "string"], ids]
    let right := union [name "int", union [name "string", ids]]
    left.Legible ∧ right.Legible ∧ left ≠ right ∧ left.inlined = right.inlined ∧
      left.text = right.text := by
  intro ids left right
  have hint : (name "int").Legible := .name (by simp [marks])
  have hstring : (name "string").Legible := .name (by simp [marks])
  have hids : ids.Legible := by
    have hmembers : ∀ d ∈ [name "A", name "B"], d.Legible := by
      simpa using And.intro (.name (by simp [marks])) (.name (by simp [marks]))
    exact .array (.intersection (by decide) hmembers (by decide))
  have hleft : left.Legible := by
    have hpair : (union [name "int", name "string"]).Legible :=
      .union (by decide) (by simpa using ⟨hint, hstring⟩)
    exact .union (by decide) (by simpa using ⟨hpair, hids⟩)
  have hright : right.Legible := by
    have hpair : (union [name "string", ids]).Legible :=
      .union (by decide) (by simpa using ⟨hstring, hids⟩)
    exact .union (by decide) (by simpa using ⟨hint, hpair⟩)
  have hother : left ≠ right := by simp [left, right]
  have hinlined : left.inlined = right.inlined := rfl
  exact ⟨hleft, hright, hother, hinlined, (text_eq_text_iff hleft hright).2 hinlined⟩

end DocType

end TypeScribe
