import BisayaPlus.Tree.Statement
/-!
# Readings without a complaint

`Reads r ts a rest` says that a reader takes `a` from the front of `ts`, leaves
`rest` and has nothing to complain about. Each primitive reader is described
once, by an equivalence, and a composed reader is taken apart by rewriting with
these.
-/

set_option autoImplicit false

namespace BisayaPlus

/-- The kind of the next token. Nothing counts as the end. -/
def nextKind (ts : List Token) : Kind := (ts.headD .nowhere).kind

@[simp]
theorem nextKind_nil : nextKind [] = .eof := rfl

@[simp]
theorem nextKind_cons (t : Token) (ts : List Token) : nextKind (t :: ts) = t.kind := rfl

theorem endsBlock_iff {k : Kind} : TokenReader.endsBlock k = true ↔ k = .katapusan ∨ k = .rightBrace ∨ k = .eof := by
  cases k <;> simp [TokenReader.endsBlock]

theorem endsBlock_eq_false {k : Kind} :
    TokenReader.endsBlock k = false ↔ k ≠ .katapusan ∧ k ≠ .rightBrace ∧ k ≠ .eof := by
  rw [← Bool.not_eq_true, endsBlock_iff]
  simp

theorem startsStatement_iff {k : Kind} : TokenReader.startsStatement k = true ↔
    k ∈ [Kind.mugna, .ipakita, .dawat, .kung, .mintras, .buhata, .alangSa, .hunong, .padayon, .pundok] := by
  cases k <;> simp [TokenReader.startsStatement]

theorem Reading.after_nil {α : Type} (r : Reading α) : r.after [] = r := by
  cases r <;> rfl

namespace TokenReader

variable {α β : Type}

/-- The reader takes `a` from the front of `ts`, leaves `rest`, and notes nothing. -/
def Reads (r : TokenReader α) (ts : List Token) (a : α) (rest : List Token) : Prop := r.run ts = .read a rest []

theorem run_pure (a : α) (ts : List Token) : (pure a : TokenReader α).run ts = .read a ts [] := rfl

theorem run_bind (r : TokenReader α) (f : α → TokenReader β) (ts : List Token) :
    (r >>= f).run ts =
      match r.run ts with
      | .read a rest noted => ((f a).run rest).after noted
      | .stuck complaint rest noted => .stuck complaint rest noted := rfl

theorem run_peek (f : Token → TokenReader β) (ts : List Token) :
    (peek >>= f).run ts = (f (ts.headD .nowhere)).run ts := by
  simp only [run_bind, peek, Reading.after_nil]

theorem run_skip (f : PUnit → TokenReader β) (ts : List Token) : (skip >>= f).run ts = (f ⟨⟩).run ts.tail := by
  simp only [run_bind, skip, Reading.after_nil]

theorem run_skipNewlines (f : PUnit → TokenReader β) (ts : List Token) :
    (skipNewlines >>= f).run ts = (f ⟨⟩).run (afterNewlines ts) := by
  simp only [run_bind, skipNewlines, Reading.after_nil]

theorem run_orResume (r : TokenReader α) (ts : List Token) :
    (orResume r).run ts =
      match r.run ts with
      | .read a rest noted => .read (some a) rest noted
      | .stuck complaint rest noted => .read none (resume rest) (noted ++ [complaint]) := rfl

theorem length_le_of_run {r : TokenReader α} {ts rest : List Token} {a : α} {noted : List Complaint}
    (h : r.run ts = .read a rest noted) : rest.length ≤ ts.length := by
  have hs := (r.rest_suffix ts).length_le
  rwa [h] at hs

/-! ## Composed readers -/

theorem reads_pure {a b : α} {ts rest : List Token} : Reads (pure a) ts b rest ↔ a = b ∧ ts = rest := by
  simp [Reads, run_pure]

theorem reads_bind {r : TokenReader α} {f : α → TokenReader β} {ts rest : List Token} {b : β} :
    Reads (r >>= f) ts b rest ↔ ∃ a mid, Reads r ts a mid ∧ Reads (f a) mid b rest := by
  simp only [Reads, run_bind]
  constructor
  · intro h
    cases hr : r.run ts with
    | stuck complaint mid noted => simp [hr] at h
    | read a mid noted =>
      rw [hr] at h
      dsimp only at h
      cases hf : (f a).run mid with
      | stuck complaint rest' noted' => simp [hf, Reading.after] at h
      | read b' rest' noted' =>
        simp only [hf, Reading.after, Reading.read.injEq, List.append_eq_nil_iff] at h
        obtain ⟨rfl, rfl, rfl, rfl⟩ := h
        exact ⟨a, mid, rfl, hf⟩
  · rintro ⟨a, mid, hr, hf⟩
    rw [hr]
    dsimp only
    rw [hf]
    rfl

theorem Reads.bind {r : TokenReader α} {f : α → TokenReader β} {ts mid rest : List Token} {a : α} {b : β}
    (h : Reads r ts a mid) (h' : Reads (f a) mid b rest) : Reads (r >>= f) ts b rest :=
  reads_bind.2 ⟨a, mid, h, h'⟩

theorem reads_orResume {r : TokenReader α} {ts rest : List Token} {o : Option α} :
    Reads (orResume r) ts o rest ↔ ∃ a, o = some a ∧ Reads r ts a rest := by
  simp only [Reads, run_orResume]
  cases r.run ts with
  | read a mid noted =>
    simp only [Reading.read.injEq]
    constructor
    · rintro ⟨rfl, rfl, rfl⟩
      exact ⟨a, rfl, rfl, rfl, rfl⟩
    · rintro ⟨b, rfl, rfl, rfl, rfl⟩
      exact ⟨rfl, rfl, rfl⟩
  | stuck complaint mid noted => simp

/-! ## Primitive readers -/

theorem reads_peek {f : Token → TokenReader β} {ts rest : List Token} {b : β} :
    Reads (peek >>= f) ts b rest ↔ Reads (f (ts.headD .nowhere)) ts b rest := by
  rw [Reads, run_peek, Reads]

theorem reads_skip {f : PUnit → TokenReader β} {ts rest : List Token} {b : β} :
    Reads (skip >>= f) ts b rest ↔ Reads (f ⟨⟩) ts.tail b rest := by
  rw [Reads, run_skip, Reads]

theorem reads_skipNewlines {f : PUnit → TokenReader β} {ts rest : List Token} {b : β} :
    Reads (skipNewlines >>= f) ts b rest ↔ Reads (f ⟨⟩) (afterNewlines ts) b rest := by
  rw [Reads, run_skipNewlines, Reads]

theorem reads_stuckAt {fault : SyntaxFault} {t : Token} {ts rest : List Token} {a : α} :
    ¬ Reads (stuckAt fault t) ts a rest := by
  simp [Reads, stuckAt]

theorem reads_stuckHere {fault : SyntaxFault} {ts rest : List Token} {a : α} :
    ¬ Reads (stuckHere fault) ts a rest := by
  simp [Reads, stuckHere]

theorem reads_note {fault : SyntaxFault} {t : Token} {ts rest : List Token} {u : PUnit} :
    ¬ Reads (note fault t) ts u rest := by
  simp [Reads, note]

theorem reads_take?_some {wanted : Kind → Bool} {ts rest : List Token} {t : Token} :
    Reads (take? wanted) ts (some t) rest ↔ ts = t :: rest ∧ wanted t.kind = true := by
  cases ts with
  | nil => simp [Reads, take?]
  | cons t' ts =>
    by_cases h : wanted t'.kind
    · simp only [Reads, take?, h, if_true, Reading.read.injEq, Option.some.injEq, and_true, List.cons.injEq]
      constructor
      · rintro ⟨rfl, rfl⟩
        exact ⟨⟨rfl, rfl⟩, h⟩
      · rintro ⟨⟨rfl, rfl⟩, -⟩
        exact ⟨rfl, rfl⟩
    · simp only [Reads, take?, h, if_false, Reading.read.injEq, reduceCtorEq, false_and, List.cons.injEq, false_iff,
        not_and, and_imp, Bool.false_eq_true]
      rintro rfl - hw
      exact h hw

theorem reads_take?_none {wanted : Kind → Bool} (he : wanted .eof = false) {ts rest : List Token} :
    Reads (take? wanted) ts none rest ↔ ts = rest ∧ wanted (nextKind ts) = false := by
  cases ts with
  | nil => simp [Reads, take?, he]
  | cons t ts => by_cases h : wanted t.kind <;> simp [Reads, take?, h]

theorem reads_expect {kind : Kind} {fault : SyntaxFault} {f : Token → TokenReader β} {ts rest : List Token} {b : β} :
    Reads (expect kind fault >>= f) ts b rest ↔
      ∃ t mid, ts = t :: mid ∧ t.kind = kind ∧ Reads (f t) mid b rest := by
  cases ts with
  | nil => simp [Reads, run_bind, expect]
  | cons t ts =>
    by_cases h : t.kind = kind
    · simp only [Reads, run_bind, expect, h, if_true, Reading.after_nil]
      constructor
      · intro hr
        exact ⟨t, ts, rfl, h, hr⟩
      · rintro ⟨_, _, ⟨⟩, -, hr⟩
        exact hr
    · simp only [Reads, run_bind, expect, h, if_false, reduceCtorEq, false_iff]
      rintro ⟨_, _, ⟨⟩, hk, -⟩
      exact h hk

theorem reads_takePast?_some {kind : Kind} {ts rest : List Token} {t : Token} :
    Reads (takePast? kind) ts (some t) rest ↔ afterNewlines ts = t :: rest ∧ t.kind = kind := by
  simp only [Reads, takePast?]
  cases afterNewlines ts with
  | nil => simp
  | cons t' ts' =>
    by_cases h : t'.kind = kind
    · simp only [h, if_true, Reading.read.injEq, Option.some.injEq, and_true, List.cons.injEq]
      constructor
      · rintro ⟨rfl, rfl⟩
        exact ⟨⟨rfl, rfl⟩, h⟩
      · rintro ⟨⟨rfl, rfl⟩, -⟩
        exact ⟨rfl, rfl⟩
    · simp only [h, if_false, Reading.read.injEq, reduceCtorEq, false_and, List.cons.injEq, false_iff, not_and, and_imp]
      rintro rfl - hk
      exact h hk

theorem reads_takePast?_none {kind : Kind} (he : kind ≠ .eof) {ts rest : List Token} :
    Reads (takePast? kind) ts none rest ↔ ts = rest ∧ nextKind (afterNewlines ts) ≠ kind := by
  simp only [Reads, takePast?]
  cases afterNewlines ts with
  | nil => simp [he.symm]
  | cons t ts' => by_cases h : t.kind = kind <;> simp [h]

end TokenReader

end BisayaPlus
