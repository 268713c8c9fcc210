import BisayaPlus.Diagnostic
import BisayaPlus.Tree
/-!
# Reading tokens

A reader takes tokens from the front of a list. It gives a value and what is
left, or gets stuck at a token with a complaint; complaints that do not stop it
are noted on the way. A reader cannot invent tokens: what it leaves is an end of
what it got.
-/

set_option autoImplicit false

namespace BisayaPlus

/-- A fault in the tokens, at the token it is blamed on. -/
structure Complaint where
  fault : SyntaxFault
  token : Token
  deriving DecidableEq

/-- What reading gives. -/
inductive Reading (α : Type) where
  | read (value : α) (rest : List Token) (noted : List Complaint)
  | stuck (complaint : Complaint) (rest : List Token) (noted : List Complaint)

/-- The reading with earlier complaints before its own. -/
def Reading.after {α : Type} (earlier : List Complaint) : Reading α → Reading α
  | read value rest noted => read value rest (earlier ++ noted)
  | stuck complaint rest noted => stuck complaint rest (earlier ++ noted)

/-- The tokens that are left. -/
def Reading.rest {α : Type} : Reading α → List Token
  | read _ rest _ => rest
  | stuck _ rest _ => rest

@[simp]
theorem Reading.rest_after {α : Type} (earlier : List Complaint) (r : Reading α) : (r.after earlier).rest = r.rest := by
  cases r <;> rfl

/-- Reads a value from the front of the tokens. What is left is an end of them. -/
structure TokenReader (α : Type) where
  run : List Token → Reading α
  rest_suffix : ∀ tokens, (run tokens).rest <:+ tokens

namespace TokenReader

variable {α β : Type}

/-- Gives a value and takes nothing. -/
def give (value : α) : TokenReader α where
  run tokens := .read value tokens []
  rest_suffix tokens := List.suffix_refl tokens

/-- Reads one thing after another. -/
def andThen (first : TokenReader α) (next : α → TokenReader β) : TokenReader β where
  run tokens :=
    match first.run tokens with
    | .read value rest noted => ((next value).run rest).after noted
    | .stuck complaint rest noted => .stuck complaint rest noted
  rest_suffix tokens := by
    have h := first.rest_suffix tokens
    cases hr : first.run tokens with
    | read value rest noted =>
      rw [hr] at h
      simpa using ((next value).rest_suffix rest).trans h
    | stuck complaint rest noted => rwa [hr] at h

instance : Monad TokenReader where
  pure := give
  bind := andThen

/-- The next token. -/
def peek : TokenReader Token where
  run tokens := .read (tokens.headD .nowhere) tokens []
  rest_suffix tokens := List.suffix_refl tokens

/-- Takes the next token. -/
def skip : TokenReader PUnit where
  run tokens := .read ⟨⟩ tokens.tail []
  rest_suffix tokens := List.tail_suffix tokens

/-- Gets stuck at a token. -/
def stuckAt (fault : SyntaxFault) (token : Token) : TokenReader α where
  run tokens := .stuck ⟨fault, token⟩ tokens []
  rest_suffix tokens := List.suffix_refl tokens

/-- Gets stuck at the next token. -/
def stuckHere (fault : SyntaxFault) : TokenReader α where
  run tokens := .stuck ⟨fault, tokens.headD .nowhere⟩ tokens []
  rest_suffix tokens := List.suffix_refl tokens

/-- Notes a complaint and goes on. -/
def note (fault : SyntaxFault) (token : Token) : TokenReader PUnit where
  run tokens := .read ⟨⟩ tokens [⟨fault, token⟩]
  rest_suffix tokens := List.suffix_refl tokens

/-- Takes the next token if its kind is one of these. -/
def take? (wanted : Kind → Bool) : TokenReader (Option Token) where
  run
    | [] => .read none [] []
    | t :: rest => if wanted t.kind then .read (some t) rest [] else .read none (t :: rest) []
  rest_suffix tokens := by
    cases tokens with
    | nil => exact List.suffix_refl []
    | cons t rest =>
      cases h : wanted t.kind
      · simp [h, Reading.rest]
      · simp [h, Reading.rest, List.suffix_cons]

/-- Takes the next token, which has to be of this kind. -/
def expect (kind : Kind) (fault : SyntaxFault) : TokenReader Token where
  run
    | [] => .stuck ⟨fault, .nowhere⟩ [] []
    | t :: rest => if t.kind = kind then .read t rest [] else .stuck ⟨fault, t⟩ (t :: rest) []
  rest_suffix tokens := by
    cases tokens with
    | nil => exact List.suffix_refl []
    | cons t rest =>
      by_cases h : t.kind = kind
      · simp [h, Reading.rest, List.suffix_cons]
      · simp [h, Reading.rest]

/-- The tokens after leading newlines. -/
def afterNewlines (tokens : List Token) : List Token := tokens.dropWhile (·.kind == .newline)

/-- Takes leading newlines. -/
def skipNewlines : TokenReader PUnit where
  run tokens := .read ⟨⟩ (afterNewlines tokens) []
  rest_suffix _ := List.dropWhile_suffix _

/-- Takes a token of this kind together with newlines before it, or nothing. -/
def takePast? (kind : Kind) : TokenReader (Option Token) where
  run tokens :=
    match afterNewlines tokens with
    | t :: rest => if t.kind = kind then .read (some t) rest [] else .read none tokens []
    | [] => .read none tokens []
  rest_suffix tokens := by
    have h : afterNewlines tokens <:+ tokens := List.dropWhile_suffix _
    split
    · next t rest ht =>
      split
      · exact (List.suffix_cons t rest).trans (ht ▸ h)
      · exact List.suffix_refl tokens
    · exact List.suffix_refl tokens

/-! ## Recovery -/

/-- The kinds that end a block or the program. -/
def endsBlock : Kind → Bool
  | .katapusan | .rightBrace | .eof => true
  | _ => false

/-- The kinds that start a statement of their own. -/
def startsStatement : Kind → Bool
  | .mugna | .ipakita | .dawat | .kung | .mintras | .buhata | .alangSa | .hunong | .padayon | .pundok => true
  | _ => false

/-- The tokens from the next line or statement on. -/
def skipLine : List Token → List Token
  | [] => []
  | t :: rest =>
    if startsStatement t.kind || endsBlock t.kind then t :: rest
    else if t.kind = .newline then rest
    else skipLine rest

/-- Where reading goes on after it got stuck here: the end of a block or of the
program stays, and anything else is skipped. -/
def resume : List Token → List Token
  | [] => []
  | t :: rest =>
    if endsBlock t.kind then t :: rest
    else if t.kind = .newline then rest
    else skipLine rest

theorem skipLine_suffix (tokens : List Token) : skipLine tokens <:+ tokens := by
  induction tokens with
  | nil => exact List.suffix_refl []
  | cons t rest ih =>
    rw [skipLine]
    split
    · exact List.suffix_refl _
    · split
      · exact List.suffix_cons t rest
      · exact ih.trans (List.suffix_cons t rest)

theorem resume_suffix (tokens : List Token) : resume tokens <:+ tokens := by
  cases tokens with
  | nil => exact List.suffix_refl []
  | cons t rest =>
    rw [resume]
    split
    · exact List.suffix_refl _
    · split
      · exact List.suffix_cons t rest
      · exact (skipLine_suffix rest).trans (List.suffix_cons t rest)

/-- Reads a value, or notes why not and takes up after it. -/
def orResume (reader : TokenReader α) : TokenReader (Option α) where
  run tokens :=
    match reader.run tokens with
    | .read value rest noted => .read (some value) rest noted
    | .stuck complaint rest noted => .read none (resume rest) (noted ++ [complaint])
  rest_suffix tokens := by
    have h := reader.rest_suffix tokens
    cases hr : reader.run tokens with
    | read value rest noted => rwa [hr] at h
    | stuck complaint rest noted =>
      rw [hr] at h
      exact (resume_suffix rest).trans h

end TokenReader

end BisayaPlus
