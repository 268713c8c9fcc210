import BisayaPlus.Proofs.Lexemes
import BisayaPlus.Text.Blank
/-!
# Fields of a line

Characters that were put into a text are found in it again, so white space
around a field is trimmed whatever the field consists of. Fields without the
separator that were joined are taken apart again.
-/

set_option autoImplicit false

namespace BisayaPlus

open Scan (dropWhile_append_stop)

namespace Text

/-! ## Characters -/

/-- The bytes of characters. -/
def ofChars (cs : List Char) : Text := cs.flatMap ofChar

theorem ofChars_append (cs ds : List Char) : ofChars (cs ++ ds) = ofChars cs ++ ofChars ds := List.flatMap_append

theorem front?_ofChar (c : Char) (t : Text) : front? (ofChar c ++ t) = some c := by
  have hsize : (ofChar c).length ≤ 4 := by
    rw [ofChar, String.length_utf8EncodeChar]
    exact c.utf8Size_le_four
  rw [front?, List.take_append, List.take_of_length_le hsize, List.toByteArray_append]
  exact ByteArray.utf8DecodeChar?_utf8EncodeChar_append

/-- A text is cut into the characters that it was made of. -/
theorem glyphs_ofChars (cs : List Char) : glyphs (ofChars cs) = cs.map .char := by
  induction cs with
  | nil => rw [ofChars, List.flatMap_nil, glyphs, List.map_nil]
  | cons c cs ih =>
    have hfront : front? (ofChars (c :: cs)) = some c := front?_ofChar c (ofChars cs)
    obtain ⟨b, t, ht⟩ : ∃ b t, ofChar c = b :: t := List.exists_cons_of_ne_nil String.utf8EncodeChar_ne_nil
    have hsize : t.length = c.utf8Size - 1 := by
      rw [← String.length_utf8EncodeChar, ← ofChar, ht, List.length_cons, Nat.add_sub_cancel]
    have hcons : ofChars (c :: cs) = b :: (t ++ ofChars cs) := by
      rw [ofChars, List.flatMap_cons, ht, List.cons_append, ofChars]
    rw [hcons] at hfront ⊢
    rw [glyphs, hfront, List.map_cons, ← ih]
    dsimp only
    rw [← hsize, List.drop_left]

/-- White space around characters that are none is trimmed. -/
theorem trim_ofChars {before inner after : List Char} (hbefore : ∀ c ∈ before, isBlank c = true) (hne : inner ≠ [])
    (hinner : ∀ c ∈ inner, isBlank c = false) (hafter : ∀ c ∈ after, isBlank c = true) :
    trim (ofChars before ++ ofChars inner ++ ofChars after) = ofChars inner := by
  have hglyph {blank : Bool} {cs : List Char} (h : ∀ c ∈ cs, isBlank c = blank) :
      ∀ g ∈ cs.map Glyph.char, g.isBlank = blank := by
    intro g hg
    obtain ⟨c, hc, rfl⟩ := List.mem_map.1 hg
    exact h c hc
  have hstart : ∀ g ∈ (inner.map Glyph.char ++ after.map Glyph.char).head?, g.isBlank = false := by
    obtain ⟨c, cs, rfl⟩ := List.exists_cons_of_ne_nil hne
    intro g hg
    obtain rfl := Option.some.inj hg
    exact hinner c List.mem_cons_self
  have hend : ∀ g ∈ (inner.map Glyph.char).reverse.head?, g.isBlank = false :=
    fun g hg => hglyph hinner g (List.mem_reverse.1 (List.mem_of_mem_head? hg))
  rw [trim, ← ofChars_append, ← ofChars_append, glyphs_ofChars, List.map_append, List.map_append, List.append_assoc,
    dropWhile_append_stop (hglyph hbefore) hstart, List.reverse_append,
    dropWhile_append_stop (fun g hg => hglyph hafter g (List.mem_reverse.1 hg)) hend, List.reverse_reverse,
    List.flatMap_map]
  rfl

/-- Only the character itself is spelled with an ASCII byte. -/
theorem toNat_of_mem_ofChar {c : Char} {b : UInt8} (hb : b.toNat < 128) (h : b ∈ ofChar c) : c.toNat = b.toNat := by
  by_cases hascii : c.val.toNat ≤ 0x7F
  · rw [ofChar, String.utf8EncodeChar, if_pos hascii] at h
    obtain rfl := List.mem_singleton.1 h
    rw [UInt8.toNat_ofNat', Char.toNat]
    omega
  · have hlarge : ∀ b ∈ ofChar c, 128 ≤ b.toNat := by
      simp only [ofChar, String.utf8EncodeChar, if_neg hascii]
      split
      · simp only [List.forall_mem_cons, List.not_mem_nil, false_implies, implies_true, and_true,
          UInt8.toNat_ofNat']
        omega
      · split
        all_goals
          simp only [List.forall_mem_cons, List.not_mem_nil, false_implies, implies_true, and_true,
            UInt8.toNat_ofNat']
          omega
    exact absurd hb (Nat.not_lt.2 (hlarge b h))

theorem single?_ofChar {c : Char} (h : c ≠ replacement) : single? (ofChar c) = some c := by
  have hfront := front?_ofChar c []
  rw [List.append_nil] at hfront
  have hsize : c.utf8Size = (ofChar c).length := (String.length_utf8EncodeChar c).symm
  simp [single?, hfront, hsize, h]

theorem ofCode_toNat (c : Char) : ofCode c.toNat = ofChar c := by
  have hvalid : c.toNat.isValidChar := c.valid
  rw [ofCode, Int.toNat_natCast, if_pos (by simpa using hvalid), Char.ofNat_toNat]

/-! ## Fields -/

variable {sep : UInt8}

theorem pieces_eq_singleton {t : Text} (h : sep ∉ t) : pieces sep t = [t] := by
  induction t with
  | nil => rfl
  | cons b t ih =>
    obtain ⟨hb, ht⟩ := not_or.1 (mt List.mem_cons.2 h)
    have hbeq : (b == sep) = false := by simpa using Ne.symm hb
    simp only [pieces, hbeq, ih ht, Bool.false_eq_true, if_false]

theorem pieces_append {t : Text} (h : sep ∉ t) (u : Text) : pieces sep (t ++ sep :: u) = t :: pieces sep u := by
  induction t with
  | nil => simp [pieces]
  | cons b t ih =>
    obtain ⟨hb, ht⟩ := not_or.1 (mt List.mem_cons.2 h)
    have hbeq : (b == sep) = false := by simpa using Ne.symm hb
    simp only [List.cons_append, pieces, hbeq, ih ht, Bool.false_eq_true, if_false]

/-- Joined fields without the separator are taken apart again. -/
theorem pieces_join {fields : List Text} (hne : fields ≠ []) (h : ∀ field ∈ fields, sep ∉ field) :
    pieces sep (join [sep] fields) = fields := by
  induction fields with
  | nil => exact absurd rfl hne
  | cons field more ih =>
    obtain ⟨hfield, hmore⟩ := List.forall_mem_cons.1 h
    cases more with
    | nil => exact pieces_eq_singleton hfield
    | cons next rest =>
      rw [join, List.append_assoc, List.singleton_append, pieces_append hfield, ih (by simp) hmore]

/-- The fields between the separators of a text. -/
structure Separated (sep : UInt8) (t : Text) (fields : List Text) : Prop where
  ne_nil : fields ≠ []
  free : ∀ field ∈ fields, sep ∉ field
  joined : join [sep] fields = t

theorem Separated.eq_pieces {t : Text} {fields : List Text} (h : Separated sep t fields) : fields = pieces sep t := by
  rw [← h.joined, pieces_join h.ne_nil h.free]

theorem join_cons_cons (sep : Text) (b : UInt8) (field : Text) (more : List Text) :
    join sep ((b :: field) :: more) = b :: join sep (field :: more) := by
  cases more <;> rfl

theorem separated_pieces (sep : UInt8) (t : Text) : Separated sep t (pieces sep t) := by
  fun_induction pieces sep t with
  | case1 => exact ⟨by simp, by simp, rfl⟩
  | case2 b t hb ih =>
    obtain rfl : b = sep := by simpa using hb
    obtain ⟨field, more, hpieces⟩ := List.exists_cons_of_ne_nil ih.ne_nil
    rw [hpieces] at ih ⊢
    refine ⟨by simp, List.forall_mem_cons.2 ⟨List.not_mem_nil, ih.free⟩, ?_⟩
    rw [join, List.nil_append, List.singleton_append, ih.joined]
  | case3 b t hb hnone ih => exact absurd hnone ih.ne_nil
  | case4 b t hb piece more hpieces ih =>
    rw [hpieces] at ih
    obtain ⟨hpiece, hmore⟩ := List.forall_mem_cons.1 ih.free
    have hne : sep ≠ b := fun h => hb (by simp [h])
    refine ⟨by simp, List.forall_mem_cons.2 ⟨List.not_mem_cons_of_ne_of_not_mem hne hpiece, hmore⟩, ?_⟩
    rw [join_cons_cons, ih.joined]

end Text

end BisayaPlus
