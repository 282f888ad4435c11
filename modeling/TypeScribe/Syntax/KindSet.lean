import TypeScribe.Syntax.Kind
/-!
# Sets of kinds

A set of kinds is one word of 128 bits with a bit for each kind, so that
membership is one test and two sets are equal exactly when their words are
(`ext_contains`). The word has room to spare; a bit that is no kind's is
never set.
-/

namespace TypeScribe

namespace Syntax

/-- A set of kinds, kept as one bit per kind. -/
structure KindSet where
  /-- Bit `k.raw` says whether `k` is a member. -/
  bits : BitVec 128
  /-- No other bit is set. -/
  spare_bits : ∀ n, Kind.sentinel.raw < n → bits.getLsbD n = false
deriving DecidableEq, Repr

namespace KindSet

/-! ## Words -/

/-- The word with bit `n` alone. -/
def bit (n : Nat) : BitVec 128 := 1#128 <<< n

/-- The word with `count` bits from bit `first` on. -/
def bitsFrom (first : Nat) : Nat → BitVec 128
  | 0 => 0
  | count + 1 => bitsFrom first count ||| bit (first + count)

theorem getLsbD_bit (m n : Nat) : (bit m).getLsbD n = (decide (n < 128) && decide (n = m)) := by
  rw [bit, BitVec.getLsbD_shiftLeft, BitVec.getLsbD_one]
  grind

/-- Something is left of a word beside one bit exactly if that bit is
set. -/
theorem and_bit_ne_zero_iff (bits : BitVec 128) (n : Nat) :
    bits &&& bit n ≠ 0 ↔ bits.getLsbD n = true := by
  have hleft (i : Nat) : (bits &&& bit n).getLsbD i = (bits.getLsbD n && decide (i = n)) := by
    have hwidth : bits.getLsbD n = true → n < 128 := BitVec.lt_of_getLsbD
    rw [BitVec.getLsbD_and, getLsbD_bit]
    grind
  constructor
  · intro hne
    cases hbit : bits.getLsbD n with
    | true => rfl
    | false =>
      refine absurd (BitVec.eq_of_getLsbD_eq fun i _ => ?_) hne
      rw [hleft, hbit, Bool.false_and]
      exact BitVec.getLsbD_zero.symm
  · intro hbit hzero
    have hn := hleft n
    rw [hzero, hbit, decide_eq_true rfl] at hn
    exact absurd (BitVec.getLsbD_zero.symm.trans hn) (by decide)

/-- **Each turn of the loop sets the next bit.** -/
theorem getLsbD_bitsFrom (first count n : Nat) : (bitsFrom first count).getLsbD n =
    (decide (n < 128) && decide (first ≤ n) && decide (n < first + count)) := by
  induction count with
  | zero =>
    rw [bitsFrom, BitVec.ofNat_eq_ofNat, BitVec.getLsbD_zero]
    grind
  | succ count ih =>
    rw [bitsFrom, BitVec.getLsbD_or, ih, getLsbD_bit]
    grind

/-- No kind's bit is a spare one. -/
theorem getLsbD_bit_raw (k : Kind) {n : Nat} (hn : Kind.sentinel.raw < n) :
    (bit k.raw).getLsbD n = false := by
  have hle := k.raw_le
  rw [getLsbD_bit]
  grind

/-! ## Sets -/

/-- No kind. -/
def empty : KindSet := ⟨0, fun _ _ => BitVec.getLsbD_zero⟩

/-- Just one kind. -/
def single (k : Kind) : KindSet := ⟨bit k.raw, fun _ hn => getLsbD_bit_raw k hn⟩

/-- The set with one kind more. -/
def insert (s : KindSet) (k : Kind) : KindSet :=
  ⟨s.bits ||| bit k.raw, fun n hn => by
    rw [BitVec.getLsbD_or, s.spare_bits n hn, getLsbD_bit_raw k hn, Bool.false_or]⟩

/-- The kinds of a list. -/
def ofList (ks : List Kind) : KindSet := ks.foldl insert empty

/-- Every node kind, and nothing else: their numbers run from the first
one's up to the bound. -/
def nodes : KindSet :=
  ⟨bitsFrom Kind.root.raw (Kind.sentinel.raw - Kind.root.raw), fun n hn => by
    have hle := Kind.root.raw_le
    rw [getLsbD_bitsFrom]
    grind⟩

/-- Whether the bit of a given number is set. -/
def holds (s : KindSet) (n : Nat) : Bool := s.bits &&& bit n != 0

/-- Membership. -/
def contains (s : KindSet) (k : Kind) : Bool := s.holds k.raw

/-- The members in the order of their numbers. -/
def toList (s : KindSet) : List Kind := Kind.all.filter s.contains

/-- The members that a listing shows, found by the bits that are set. The
bound of the numbering is never shown. -/
def shown (s : KindSet) : List Kind :=
  ((List.range Kind.sentinel.raw).filter s.holds).filterMap Kind.ofRaw?

/-- The members as a listing shows them. -/
def text (s : KindSet) : String :=
  "\x7b" ++ ", ".intercalate (s.shown.map Kind.label) ++ "\x7d"

/-! ## Membership -/

theorem holds_eq_getLsbD (s : KindSet) (n : Nat) : s.holds n = s.bits.getLsbD n := by
  rw [Bool.eq_iff_iff, ← and_bit_ne_zero_iff, holds, bne_iff_ne]

theorem contains_eq_getLsbD (s : KindSet) (k : Kind) : s.contains k = s.bits.getLsbD k.raw :=
  s.holds_eq_getLsbD k.raw

@[simp] theorem contains_empty (k : Kind) : empty.contains k = false :=
  (contains_eq_getLsbD _ k).trans BitVec.getLsbD_zero

theorem contains_single (k l : Kind) : (single k).contains l = decide (l = k) := by
  have hl := l.raw_lt
  have hsame : l.raw = k.raw ↔ l = k := ⟨Kind.raw_injective, congrArg Kind.raw⟩
  rw [contains_eq_getLsbD, single, getLsbD_bit]
  grind

theorem contains_insert (s : KindSet) (k l : Kind) :
    (s.insert k).contains l = (s.contains l || decide (l = k)) := by
  rw [← contains_single k l, contains_eq_getLsbD, contains_eq_getLsbD, contains_eq_getLsbD, insert,
    single, BitVec.getLsbD_or]

/-- **A list's set has the list's kinds.** -/
theorem contains_ofList (ks : List Kind) (k : Kind) :
    (ofList ks).contains k = true ↔ k ∈ ks := by
  have key : ∀ (ks : List Kind) (s : KindSet),
      (ks.foldl insert s).contains k = true ↔ s.contains k = true ∨ k ∈ ks := by
    intro ks
    induction ks with
    | nil => simp
    | cons l ks ih =>
      intro s
      rw [List.foldl_cons, ih, contains_insert]
      simp [or_assoc]
  simp [ofList, key]

/-- **Sets with the same members are equal.** -/
theorem ext_contains {s t : KindSet} (h : ∀ k, s.contains k = t.contains k) : s = t := by
  obtain ⟨a, ha⟩ := s
  obtain ⟨b, hb⟩ := t
  have hbits : a = b := by
    apply BitVec.eq_of_getLsbD_eq
    intro i _
    rcases Nat.lt_or_ge Kind.sentinel.raw i with hi | hi
    · rw [ha i hi, hb i hi]
    · obtain ⟨k, rfl⟩ := Kind.exists_raw_eq hi
      have hk := h k
      rwa [contains_eq_getLsbD, contains_eq_getLsbD] at hk
  subst hbits
  rfl

theorem mem_toList {s : KindSet} {k : Kind} : k ∈ s.toList ↔ s.contains k = true := by
  simp [toList, k.mem_all]

/-! ## The categories of nodes -/

/-- Declarations of classes, interfaces and traits. -/
def classLikes : KindSet := ofList [.classDecl, .interfaceDecl, .traitDecl]

/-- What has parameters and a body. -/
def functionLikes : KindSet := ofList [.functionDecl, .methodDecl, .closure]

/-- Statements, declarations among them. -/
def statements : KindSet :=
  ofList [.classDecl, .interfaceDecl, .traitDecl, .functionDecl, .methodDecl, .propertyDecl,
    .exprStmt, .returnStmt, .echoStmt, .ifStmt]

/-- Expressions. -/
def expressions : KindSet :=
  ofList [.assign, .var, .methodCall, .staticCall, .funcCall, .propertyFetch, .newExpr, .closure,
    .binaryOp, .constFetch, .literal]

/-- What has an argument list. -/
def callLikes : KindSet := ofList [.methodCall, .staticCall, .funcCall, .newExpr]

/-- Hints made of other hints. -/
def complexTypes : KindSet := ofList [.nullableType, .unionType]

/-- Hints of any form. -/
def typeHints : KindSet :=
  ofList [.typeName, .fullyQualifiedName, .nullableType, .unionType]

end KindSet

namespace Kind

/-- Whether a node of this kind is a statement. -/
def isStatement (k : Kind) : Bool := KindSet.statements.contains k

/-- Whether a node of this kind is an expression. -/
def isExpr (k : Kind) : Bool := KindSet.expressions.contains k

end Kind

end Syntax

end TypeScribe
