import BisayaPlus.Proofs.DecimalNumerals
import BisayaPlus.Proofs.Fields
import BisayaPlus.Proofs.Requests
import BisayaPlus.Proofs.Targets
/-!
# Reading back what was printed

The text that an integer, a truth value or a character prints as is read as the
same value, if the character is not one that separates or surrounds fields or
stands for what is no character. So a DAWAT for any number of variables, given
the printed values with commas between them and white space around them, stores
exactly these values.
-/

set_option autoImplicit false

namespace BisayaPlus

/-! ## Values -/

namespace Value

open Text

/-- The values that a field of input can stand for as they are printed. -/
inductive Readable : DataType → Value → Prop where
  | numero (i : Int64) : Readable .numero (.numero i)
  | tinuod (b : Bool) : Readable .tinuod (.tinuod b)
  | letra {c : Char} (hcomma : c ≠ ',') (hblank : isBlank c = false) (hcharacter : c ≠ replacement) :
      Readable .letra (.letra (Int32.ofInt c.toNat))

variable {declared : DataType} {v : Value}

theorem display_letra (c : Char) : display (.letra (Int32.ofInt c.toNat)) = ofChar c := by
  have hvalid : c.toNat.isValidChar := c.valid
  have hlt : c.toNat < 0x110000 := by
    unfold Nat.isValidChar at hvalid
    omega
  rw [display, Int32.toInt_ofInt_of_le (by omega) (by omega), ofCode_toNat]

/-- A printed value is read as the value. -/
theorem read_display (h : Readable declared v) : read declared v.display = .ok v := by
  cases h with
  | numero i =>
    rw [read, display, read?, readNumero?, Numeral.int64?_ofInt]
    rfl
  | tinuod b => cases b <;> rfl
  | letra _ _ hc =>
    rw [display_letra, read, read?, single?_ofChar hc]
    rfl

/-- A character that a field may consist of. -/
def inField (c : Char) : Bool := c != ',' && !isBlank c

/-- A number is spelled with digits. -/
theorem ofNat_eq_ofChars (n : Nat) : ∃ cs, cs ≠ [] ∧ Text.ofNat n = ofChars cs ∧ ∀ c ∈ cs, inField c = true := by
  obtain ⟨ds, hne, htext, -⟩ := Numeral.exists_digits_ofNat n
  have hdigit : ∀ d : Fin 10, ofChar (Nat.digitChar d) = [Numeral.digitByte d] ∧
      inField (Nat.digitChar d) = true := by
    decide
  refine ⟨ds.map fun d : Fin 10 => Nat.digitChar d, by simpa using hne, ?_, ?_⟩
  · rw [htext, ofChars, List.flatMap_map, List.map_eq_flatMap]
    exact List.flatMap_congr fun d _ => (hdigit d).1.symm
  · intro c hc
    obtain ⟨d, -, rfl⟩ := List.mem_map.1 hc
    exact (hdigit d).2

/-- A printed value is spelled without commas and white space. -/
theorem display_eq_ofChars (h : Readable declared v) :
    ∃ cs, cs ≠ [] ∧ v.display = ofChars cs ∧ ∀ c ∈ cs, inField c = true := by
  cases h with
  | numero i =>
    rw [display]
    cases i.toInt with
    | ofNat n => exact ofNat_eq_ofChars n
    | negSucc n =>
      obtain ⟨cs, -, htext, hcs⟩ := ofNat_eq_ofChars (n + 1)
      refine ⟨'-' :: cs, by simp, ?_, List.forall_mem_cons.2 ⟨by decide, hcs⟩⟩
      rw [Text.ofInt, htext]
      rfl
  | tinuod b =>
    cases b with
    | false => exact ⟨['D', 'I', 'L', 'I'], by simp, rfl, List.all_eq_true.1 rfl⟩
    | true => exact ⟨['O', 'O'], by simp, rfl, List.all_eq_true.1 rfl⟩
  | letra hcomma hblank _ =>
    refine ⟨[_], by simp, (display_letra _).trans (List.append_nil _).symm, ?_⟩
    simpa [inField] using ⟨hcomma, hblank⟩

end Value

/-! ## Variables -/

namespace Scopes

/-- A name means a variable of this type. -/
def Declares (s : Scopes) (name : Text) (declared : DataType) : Prop :=
  ∃ place value, s.lookup? name = some (place, ⟨declared, value⟩)

end Scopes

/-- A value to read back: the name and type of its variable, and the white space
around its field. -/
structure PrintedField where
  name : Token
  declared : DataType
  value : Value
  before : List Char
  after : List Char
  readable : Value.Readable declared value
  before_blank : ∀ c ∈ before, Text.isBlank c = true
  after_blank : ∀ c ∈ after, Text.isBlank c = true

namespace PrintedField

open Text Execution Scopes

/-- The printed value with white space around it. -/
def field (e : PrintedField) : Text := ofChars e.before ++ e.value.display ++ ofChars e.after

theorem trim_field (e : PrintedField) : trim e.field = e.value.display := by
  obtain ⟨cs, hne, htext, hcs⟩ := Value.display_eq_ofChars e.readable
  rw [field, htext]
  refine trim_ofChars e.before_blank hne (fun c hc => ?_) e.after_blank
  have hin := hcs c hc
  simp only [Value.inField, Bool.and_eq_true, Bool.not_eq_true'] at hin
  exact hin.2

theorem comma_not_mem_ofChars {cs : List Char} (h : ',' ∉ cs) : byte ',' ∉ ofChars cs := by
  intro hmem
  obtain ⟨c, hc, hbyte⟩ := List.mem_flatMap.1 hmem
  have hcode : c.toNat = ','.toNat := toNat_of_mem_ofChar (by decide) hbyte
  rw [Char.toNat_inj] at hcode
  exact h (hcode ▸ hc)

theorem comma_not_mem_field (e : PrintedField) : byte ',' ∉ e.field := by
  obtain ⟨cs, -, htext, hcs⟩ := Value.display_eq_ofChars e.readable
  have hblank : Text.isBlank ',' ≠ true := by decide
  rw [field, htext]
  simp only [List.mem_append, not_or]
  refine ⟨⟨?_, ?_⟩, ?_⟩
  · exact comma_not_mem_ofChars fun h => hblank (e.before_blank _ h)
  · exact comma_not_mem_ofChars fun h => absurd (hcs _ h) (by decide)
  · exact comma_not_mem_ofChars fun h => hblank (e.after_blank _ h)

theorem assignInput_display {s : Scopes} {e : PrintedField} (h : s.Declares e.name.lexeme e.declared) :
    ∃ t, s.assignInput e.name e.value.display = .ok (e.value, t) := by
  obtain ⟨place, old, hlookup⟩ := h
  simp only [assignInput, update, hlookup, Value.read_display e.readable]
  exact ⟨_, rfl⟩

/-- By induction on the fields: what is stored for the first one is kept, since
the others have other names. -/
theorem run_store {fields : List PrintedField} {m : Machine} (hdistinct : (fields.map (·.name.lexeme)).Nodup)
    (hdeclared : ∀ e ∈ fields, m.scopes.Declares e.name.lexeme e.declared) :
    ∃ t, store (fields.map fun e => (e.name, e.value.display)) m = (.ok ⟨⟩, { m with scopes := t }) ∧
      Confined (fields.map (·.name.lexeme)) m.scopes t ∧ ∀ e ∈ fields, t.get e.name = .ok e.value := by
  induction fields generalizing m with
  | nil => exact ⟨m.scopes, rfl, .refl _ _, by simp⟩
  | cons e more ih =>
    obtain ⟨hnew, hmore⟩ := List.nodup_cons.1 hdistinct
    obtain ⟨he, hothers⟩ := List.forall_mem_cons.1 hdeclared
    obtain ⟨s, hassign⟩ := assignInput_display he
    have hfirst : Confined [e.name.lexeme] m.scopes s := (Confined.refl _ _).update (by simp) hassign
    have hstill : ∀ e' ∈ more, s.Declares e'.name.lexeme e'.declared := by
      intro e' he'
      have hne : e'.name.lexeme ∉ [e.name.lexeme] := by
        rw [List.mem_singleton]
        exact fun h => hnew (List.mem_map.2 ⟨e', he', h⟩)
      rw [Declares, hfirst.lookup?_eq hne]
      exact hothers e' he'
    obtain ⟨t, hrun, hconfined, hget⟩ := @ih { m with scopes := s } hmore hstill
    refine ⟨t, ?_, hfirst.trans hconfined, List.forall_mem_cons.2 ⟨?_, hget⟩⟩
    · rw [List.map_cons, store, run_get, hassign]
      exact hrun
    · rw [Scopes.get, hconfined.lookup?_eq hnew, ← Scopes.get]
      exact get_update hassign

/-- The line is taken apart into the printed values. -/
theorem trim_pieces_join {fields : List PrintedField} (hne : fields ≠ []) :
    (pieces (byte ',') (join [byte ','] (fields.map field))).map trim = fields.map (·.value.display) := by
  have hcomma : ∀ t ∈ fields.map field, byte ',' ∉ t := by
    intro t ht
    obtain ⟨e, -, rfl⟩ := List.mem_map.1 ht
    exact e.comma_not_mem_field
  rw [pieces_join (by simpa using hne) hcomma, List.map_map]
  exact List.map_congr_left fun e _ => e.trim_field

/-- The fields of the line are stored one by one. -/
theorem run_receive {watchers : Watchers} (hreader : watchers.reader = true) (keyword : Token)
    {fields : List PrintedField} (hne : fields ≠ []) (hdistinct : (fields.map (·.name.lexeme)).Nodup) {m : Machine}
    (hdeclared : ∀ e ∈ fields, m.scopes.Declares e.name.lexeme e.declared) {rest : List Reply}
    (hline : m.replies = .line (join [byte ','] (fields.map field)) :: rest) :
    ∃ m', receive watchers keyword (fields.map (·.name)) m = (.ok ⟨⟩, m') ∧
      (∀ e ∈ fields, m'.scopes.get e.name = .ok e.value) ∧
      Confined (fields.map (·.name.lexeme)) m.scopes m'.scopes ∧ m'.replies = rest := by
  have hnames : ∀ name ∈ fields.map (·.name), m.scopes.has name.lexeme = true := by
    intro name hname
    obtain ⟨e, he, rfl⟩ := List.mem_map.1 hname
    obtain ⟨place, value, hlookup⟩ := hdeclared e he
    rw [has, hlookup]
    rfl
  rw [receive, run_bind, run_requireAll_declared hnames]
  dsimp only
  rw [run_bind, run_request hreader, hline]
  dsimp only [nextReply, List.headD_cons, answered, answerEvent, List.tail_cons]
  rw [trim_pieces_join hne, if_pos (by simp), List.zip_map']
  generalize hm : Machine.mk m.scopes rest m.prints _ = m₀
  have hscopes : m₀.scopes = m.scopes := hm ▸ rfl
  have hreplies : m₀.replies = rest := hm ▸ rfl
  rw [← hscopes] at hdeclared ⊢
  obtain ⟨t, hstore, hconfined, hget⟩ := run_store hdistinct hdeclared
  exact ⟨_, hstore, hget, hconfined, hreplies⟩

end PrintedField

open Execution Scopes

/-- A DAWAT reads back what was printed. The values of one or more variables,
integers, truth values or characters, are joined with commas, with white space
around them; then each variable holds its value, no other variable has changed,
and one line of the input was taken. -/
theorem dawat_reads_back (watchers : Watchers) (hreader : watchers.reader = true) (rounds : Nat) (keyword : Token)
    (fields : List PrintedField) (hne : fields ≠ []) (hdistinct : (fields.map (·.name.lexeme)).Nodup) (m : Machine)
    (hdeclared : ∀ e ∈ fields, m.scopes.Declares e.name.lexeme e.declared) (rest : List Reply)
    (hline : m.replies = .line (Text.join "," (fields.map PrintedField.field)) :: rest) :
    ∃ m', (Stmt.dawat keyword (fields.map (·.name))).execute watchers rounds m = (.ok .normal, m') ∧
      (∀ e ∈ fields, m'.scopes.get e.name = .ok e.value) ∧
      Confined (fields.map (·.name.lexeme)) m.scopes m'.scopes ∧ m'.replies = rest := by
  obtain ⟨m₀, hannounce, hscopes, hreplies⟩ :
      ∃ m₀, announce watchers (.dawat keyword (fields.map (·.name))) m = (.ok ⟨⟩, m₀) ∧
        m₀.scopes = m.scopes ∧ m₀.replies = m.replies :=
    ⟨_, run_announced _ m, announced_scopes _ m, announced_replies _ m⟩
  rw [← hscopes] at hdeclared ⊢
  obtain ⟨m', hreceive, hafter⟩ :=
    PrintedField.run_receive hreader keyword hne hdistinct hdeclared (hreplies.trans hline)
  refine ⟨m', ?_, hafter⟩
  rw [Stmt.execute, run_bind, hannounce]
  dsimp only
  rw [run_bind, hreceive]
  rfl

/-- The least integer, a truth value and a character of four bytes, two of them
with white space around. -/
def sampleFields : List PrintedField := [
  { name := { kind := .identifier, lexeme := "x", line := 1 }, declared := .numero, value := .numero Int64.minValue,
    before := [' ', '\t'], after := [], readable := .numero _, before_blank := List.all_eq_true.1 rfl,
    after_blank := List.all_eq_true.1 rfl },
  { name := { kind := .identifier, lexeme := "b", line := 1 }, declared := .tinuod, value := .tinuod false,
    before := [], after := [Char.ofNat 0x3000], readable := .tinuod _, before_blank := List.all_eq_true.1 rfl,
    after_blank := List.all_eq_true.1 rfl },
  { name := { kind := .identifier, lexeme := "c", line := 1 }, declared := .letra, value := .letra 0x1F600,
    before := [], after := [], readable := .letra (c := '😀') (by decide) (by decide) (by decide),
    before_blank := List.all_eq_true.1 rfl, after_blank := List.all_eq_true.1 rfl }]

/-- A DAWAT for the three of them. -/
theorem dawat_reads_back_sample :
    let keyword : Token := { kind := .dawat, lexeme := "DAWAT", line := 2 }
    let m : Machine := {
      scopes := {
        arena := [{ bindings := sampleFields.map fun e => (e.name.lexeme, ⟨e.declared, .null⟩) }], current := 0 },
      replies := [.line " \t-9223372036854775808,DILI\u3000,😀"], prints := 0, shown := [] }
    sampleFields ≠ [] ∧ (sampleFields.map (·.name.lexeme)).Nodup ∧
      (∀ e ∈ sampleFields, m.scopes.Declares e.name.lexeme e.declared) ∧
      ∃ m', (Stmt.dawat keyword (sampleFields.map (·.name))).execute {} 1 m = (.ok .normal, m') ∧
        ∀ e ∈ sampleFields, m'.scopes.get e.name = .ok e.value := by
  intro keyword m
  have hdistinct : (sampleFields.map (·.name.lexeme)).Nodup := by decide
  have hdeclared : ∀ e ∈ sampleFields, m.scopes.Declares e.name.lexeme e.declared := by
    have hlookup : ∀ e ∈ sampleFields, m.scopes.lookup? e.name.lexeme = some (0, ⟨e.declared, .null⟩) := by decide
    exact fun e he => ⟨0, .null, hlookup e he⟩
  obtain ⟨m', hrun, hget, -⟩ := dawat_reads_back {} rfl 1 keyword sampleFields (by simp [sampleFields]) hdistinct m
    hdeclared [] (by decide +kernel)
  exact ⟨by simp [sampleFields], hdistinct, hdeclared, m', hrun, hget⟩

end BisayaPlus
