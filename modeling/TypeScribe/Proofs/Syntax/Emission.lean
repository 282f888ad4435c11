import TypeScribe.Syntax.Comparison
import TypeScribe.Syntax.Shorthand
/-!
# What programs emit

A program is balanced if it leaves every node it enters and no other. The
balanced programs are exactly those that emit the same trees on every
builder: a run does not look below the builder it started on
(`run_onTop`), so what a program emits from nothing it emits everywhere.
And what is compared of the emitted trees can be read off the program
(`Emits.significant`), without the trees.
-/

namespace TypeScribe

namespace Syntax

namespace Builder

/-- The trees under construction, set on top of those of another builder:
what is emitted outside all nodes goes into the other's innermost one. -/
def onTop (emitted : List Tree) : List (Kind × List Tree) → Builder → Builder
  | [], base => ⟨emitted ++ base.emitted, base.opened⟩
  | (k, outer) :: opened, base =>
    ⟨emitted, (k, (onTop outer opened base).emitted) :: (onTop outer opened base).opened⟩

variable {b b' base : Builder} {s : Step} {p : Program}

theorem onTop_of_opened_eq_nil (h : b.opened = []) (base : Builder) :
    onTop b.emitted b.opened base = base.append b.emitted.reverse := by
  rw [h, onTop, append, List.reverse_reverse]

/-- One step takes place on top of any builder as it does on its own. -/
theorem step_onTop (h : b.step s = some b') (base : Builder) :
    (onTop b.emitted b.opened base).step s = some (onTop b'.emitted b'.opened base) := by
  obtain ⟨emitted, opened⟩ := b
  cases s with
  | token k text =>
    cases h
    cases opened <;> rfl
  | enter k =>
    cases h
    cases opened <;> rfl
  | leave =>
    cases opened with
    | nil => cases h
    | cons frame opened =>
      -- the node goes into one below it or, if it is the last, into the other builder's
      cases h
      cases opened <;> rfl

/-- **So does a run.** -/
theorem run_onTop (h : b.run p = some b') (base : Builder) :
    (onTop b.emitted b.opened base).run p = some (onTop b'.emitted b'.opened base) := by
  induction p generalizing b with
  | nil =>
    cases h
    rfl
  | cons s p ih =>
    obtain ⟨next, hstep, hrest⟩ := Option.bind_eq_some_iff.1 h
    rw [run, step_onTop hstep base, Option.bind_some, ih hrest]

end Builder

namespace Program

variable {p q : Program} {ts us : List Tree}

/-- How many nodes are open after the program, if `depth` were open before;
it must not leave more than there are. -/
def depthAfter? (depth : Nat) : Program → Option Nat
  | [] => some depth
  | .token _ _ :: p => depthAfter? depth p
  | .enter _ :: p => depthAfter? (depth + 1) p
  | .leave :: p =>
    match depth with
    | 0 => none
    | depth + 1 => depthAfter? depth p

/-- The program leaves every node it enters and no other. -/
def IsBalanced (p : Program) : Prop := depthAfter? 0 p = some 0

instance : Decidable p.IsBalanced := inferInstanceAs (Decidable (_ = _))

/-- The count is that of the open nodes of a builder. -/
theorem depthAfter?_length_opened (b : Builder) (p : Program) :
    depthAfter? b.opened.length p = (b.run p).map (·.opened.length) := by
  induction p generalizing b with
  | nil => rfl
  | cons s p ih =>
    obtain ⟨emitted, opened⟩ := b
    cases s with
    | token k text => exact ih ⟨.token k text :: emitted, opened⟩
    | enter k => exact ih ⟨[], (k, emitted) :: opened⟩
    | leave =>
      cases opened with
      | nil => rfl
      | cons frame opened => exact ih ⟨.node frame.1 emitted.reverse :: frame.2, opened⟩

/-- **What a program emits from nothing it emits everywhere.** -/
theorem emits_iff_run_empty :
    p.Emits ts ↔ Builder.empty.run p = some ⟨ts.reverse, []⟩ := by
  constructor
  · intro h
    rw [h Builder.empty, Builder.append, Builder.empty, List.append_nil]
  · intro h b
    have hrun := Builder.run_onTop h b
    rw [Builder.onTop_of_opened_eq_nil rfl, Builder.onTop_of_opened_eq_nil rfl,
      List.reverse_reverse] at hrun
    exact hrun

/-- **Balanced programs are those that emit trees**, whatever the builder
they run on. -/
theorem isBalanced_iff : p.IsBalanced ↔ ∃ ts, p.Emits ts := by
  have hcount := depthAfter?_length_opened Builder.empty p
  constructor
  · intro h
    obtain ⟨b, hrun, hlength⟩ := Option.map_eq_some_iff.1 (hcount.symm.trans h)
    refine ⟨b.emitted.reverse, emits_iff_run_empty.2 ?_⟩
    rw [hrun, List.reverse_reverse, ← List.eq_nil_of_length_eq_zero hlength]
  · rintro ⟨ts, h⟩
    exact hcount.trans (by rw [emits_iff_run_empty.1 h]; rfl)

end Program

/-! ## What is compared of what is emitted -/

/-- What a step adds to the sequence that is compared. -/
def Step.significant : Step → List (Kind × Option String)
  | .token k s => if k.isTrivia then [] else [(k, some s)]
  | .enter k => if k.isTrivia then [] else [(k, none)]
  | .leave => []

namespace Builder

/-- What is compared of the trees under construction, closed nodes and open
ones. -/
def significant (emitted : List Tree) : List (Kind × List Tree) → List (Kind × Option String)
  | [] => Tree.significantOfAll emitted.reverse
  | (k, outer) :: opened =>
    significant outer opened ++ (Step.enter k).significant ++ Tree.significantOfAll emitted.reverse

variable {b b' : Builder} {s : Step} {p : Program}

theorem significant_cons (t : Tree) (emitted : List Tree) (opened : List (Kind × List Tree)) :
    significant (t :: emitted) opened = significant emitted opened ++ t.significant := by
  cases opened <;> simp [significant, Tree.significantOfAll_eq_flatMap]

theorem significant_step (h : b.step s = some b') :
    significant b'.emitted b'.opened = significant b.emitted b.opened ++ s.significant := by
  obtain ⟨emitted, opened⟩ := b
  cases s with
  | token k text =>
    cases h
    exact significant_cons ..
  | enter k =>
    cases h
    simp [significant, Tree.significantOfAll]
  | leave =>
    cases opened with
    | nil => cases h
    | cons frame opened =>
      -- the node's kind was counted when it was entered, before all it holds
      cases h
      rw [significant_cons, significant, Tree.significant, Step.significant]
      split <;> simp [Step.significant, *]

theorem significant_run (h : b.run p = some b') :
    significant b'.emitted b'.opened =
      significant b.emitted b.opened ++ p.flatMap Step.significant := by
  induction p generalizing b with
  | nil =>
    cases h
    rw [List.flatMap_nil, List.append_nil]
  | cons s p ih =>
    obtain ⟨next, hstep, hrest⟩ := Option.bind_eq_some_iff.1 h
    rw [ih hrest, significant_step hstep, List.flatMap_cons, List.append_assoc]

end Builder

namespace Program

/-- What is compared of the trees a program emits. -/
def significant (p : Program) : List (Kind × Option String) := p.flatMap Step.significant

variable {p : Program} {ts : List Tree}

/-- **A comparison sees the steps of the program** that emits the tokens and
enters the nodes, and not where it leaves them. -/
theorem Emits.significant (h : p.Emits ts) : Tree.significantOfAll ts = p.significant := by
  have hrun := Builder.significant_run (emits_iff_run_empty.1 h)
  simp only [Builder.significant, List.reverse_reverse] at hrun
  exact hrun

theorem significant_append (p q : Program) :
    significant (p ++ q) = p.significant ++ q.significant :=
  List.flatMap_append

variable {k : Kind}

theorem significant_token (hk : k.isTrivia = false) (text : String) :
    significant (token k text) = [(k, some text)] := by
  simp [significant, token, Step.significant, hk]

theorem significant_node (hk : k.isTrivia = false) (p : Program) :
    significant (node k p) = (k, none) :: p.significant := by
  simp [significant, node, Step.significant, hk]

/-! ## Parts that recur -/

theorem emits_space : Emits space [.token .whitespace " "] := emits_token _ _

theorem emits_name (s : String) : Emits (name s) [.node .name [.token .ident s]] :=
  (emits_token _ _).node _

theorem emits_var (s : String) : Emits (var s) [.node .var [.token .varName ("$" ++ s)]] :=
  (emits_token _ _).node _

theorem Emits.args (h : p.Emits ts) : Emits (args p)
    [.node .argList (.token .parenOpen "(" :: ts ++ [.token .parenClose ")"])] :=
  (((emits_token _ _).append h).append (emits_token _ _)).node _

end Program

end Syntax

end TypeScribe
