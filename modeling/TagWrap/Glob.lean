import TagWrap.Text.Offset

/-!
# Glob patterns

A pattern stands for a set of texts. A question mark stands for any one character, a
star for any run of characters, slashes included, and brackets for one character of a
class, or outside it after an exclamation mark. Two stars must fill a whole piece
between slashes, and stand for any run of pieces. More stars, two stars beside something
else and a bracket that is not closed make a pattern invalid.
-/
namespace TagWrap

/-- A character or a range of characters in brackets. -/
structure CharRange where
  first : Char
  last : Char
deriving DecidableEq, Repr

/-- A part of a pattern. -/
inductive GlobToken where
  | char (char : Char)
  | anyChar
  | anyRun
  /-- Whole pieces with the slash behind each of them. -/
  | anyPieces
  | within (ranges : List CharRange)
  | except (ranges : List CharRange)
deriving DecidableEq, Repr

namespace Glob

/-- The ranges between brackets. A hyphen between two characters makes a range of
    them. -/
def charRanges : Text → List CharRange
  | first :: '-' :: last :: rest => ⟨first, last⟩ :: charRanges rest
  | char :: rest => ⟨char, char⟩ :: charRanges rest
  | [] => []

/-- Cut a text at its first closing bracket, which is dropped. -/
def splitClass (text : Text) : Option (Text × Text) :=
  match text.dropWhile (· != ']') with
  | _ :: rest => some (text.takeWhile (· != ']'), rest)
  | [] => none

/-- The token of a class in brackets, and the text after it, from the text after the
    opening bracket. The first character of the class is taken as it is. -/
def bracket? (text : Text) : Option (GlobToken × Text) :=
  match text with
  | '!' :: first :: rest => do
      let (others, rest) ← splitClass rest
      return (.except (charRanges (first :: others)), rest)
  | ['!'] => none
  | first :: rest => do
      let (others, rest) ← splitClass rest
      return (.within (charRanges (first :: others)), rest)
  | [] => none

/-- The tokens of a pattern, where `previous` is the character in front of the text and
    `written` counts the tokens so far and says whether the last of them stands for whole
    pieces. Each step takes a character, so their number bounds the steps. -/
def tokensFrom : Nat → Option Char → Nat × Bool → Text → Option (List GlobToken)
  | 0, _, _, _ => some []
  | fuel + 1, previous, written, text =>
      match text with
      | [] => some []
      | '?' :: rest => do
          let tokens ← tokensFrom fuel (some '?') (written.1 + 1, false) rest
          return .anyChar :: tokens
      | '*' :: '*' :: '*' :: _ => none
      | '*' :: '*' :: rest =>
          let alone := match previous with
            | none => true
            | some char => char == '/'
          let after := match rest with
            | [] => some []
            | '/' :: rest => some rest
            | _ => none
          match alone, after with
          | true, some rest =>
              let last := if rest.isEmpty then '*' else '/'
              -- A second run of pieces adds nothing, once there is more than one token.
              if 1 < written.1 && written.2 then tokensFrom fuel (some last) written rest
              else do
                let tokens ← tokensFrom fuel (some last) (written.1 + 1, true) rest
                return .anyPieces :: tokens
          | _, _ => none
      | '*' :: rest => do
          let tokens ← tokensFrom fuel (some '*') (written.1 + 1, false) rest
          return .anyRun :: tokens
      | '[' :: rest => do
          let (token, rest) ← bracket? rest
          let tokens ← tokensFrom fuel (some ']') (written.1 + 1, false) rest
          return token :: tokens
      | char :: rest => do
          let tokens ← tokensFrom fuel (some char) (written.1 + 1, false) rest
          return .char char :: tokens

/-- The tokens of a pattern, if it is valid. -/
def tokens? (pattern : Text) : Option (List GlobToken) :=
  tokensFrom (pattern.length + 1) none (0, false) pattern

/-- The ends of a text, from the whole of it to nothing. -/
def suffixes : Text → List Text
  | [] => [[]]
  | char :: rest => (char :: rest) :: suffixes rest

/-- The ends of a text behind a slash, and nothing. -/
def suffixesAfterSlash : Text → List Text
  | [] => [[]]
  | char :: rest =>
      if char = '/' then rest :: suffixesAfterSlash rest else suffixesAfterSlash rest

/-- Whether a character is in one of the ranges. -/
def inRanges (ranges : List CharRange) (char : Char) : Bool :=
  ranges.any fun range => range.first ≤ char && char ≤ range.last

/-- Whether a token for one character stands for a given one. -/
def admits (token : GlobToken) (char : Char) : Bool :=
  match token with
  | .char expected => char == expected
  | .within ranges => inRanges ranges char
  | .except ranges => !inRanges ranges char
  | _ => true

/-- Whether tokens stand for a whole text. -/
def accepts : List GlobToken → Text → Bool
  | [], text => text.isEmpty
  | .anyRun :: tokens, text => (suffixes text).any (accepts tokens)
  | .anyPieces :: tokens, text =>
      accepts tokens text || (suffixesAfterSlash text).any (accepts tokens)
  | token :: tokens, char :: rest => admits token char && accepts tokens rest
  | _ :: _, [] => false

/-! ## Matching

Tokens are matched with all ends of a text at once, from the last token to the first. A
row says for each end, from the whole text to nothing, whether the tokens stand for it.
So the time is bounded by the number of tokens and the length of the text. -/

/-- Whether the whole text of a row is accepted. -/
def first (row : List Bool) : Bool := row.headD false

/-- The row of no tokens: they stand for nothing only. -/
def emptyRow : Text → List Bool
  | [] => [true]
  | _ :: rest => false :: emptyRow rest

/-- The row of any run before the tokens of a row. -/
def runRow : List Bool → List Bool
  | [] => []
  | accepted :: row =>
      let rest := runRow row
      (accepted || first rest) :: rest

/-- For each end of a text, whether it has an end behind a slash that a row accepts, or
    the row accepts nothing. -/
def slashRow : Text → List Bool → List Bool
  | char :: text, _ :: row =>
      let rest := slashRow text row
      (char == '/' && first row || first rest) :: rest
  | _, row => row

/-- The row of a token for one character before the tokens of a row. -/
def charRow (token : GlobToken) : Text → List Bool → List Bool
  | char :: text, _ :: row => (admits token char && first row) :: charRow token text row
  | _, _ => [false]

/-- The row of tokens. -/
def row : List GlobToken → Text → List Bool
  | [], text => emptyRow text
  | .anyRun :: tokens, text => runRow (row tokens text)
  | .anyPieces :: tokens, text =>
      let rest := row tokens text
      rest.zipWith (· || ·) (slashRow text rest)
  | token :: tokens, text => charRow token text (row tokens text)

/-- Whether tokens stand for a whole text, by their row. -/
def matchesText (tokens : List GlobToken) (text : Text) : Bool := first (row tokens text)

/-- The first end of a text is the text. -/
theorem first_map_suffixes (accepted : Text → Bool) (text : Text) :
    first ((suffixes text).map accepted) = accepted text := by
  cases text <;> rfl

/-- The row of no tokens says what no tokens accept. -/
theorem emptyRow_eq (text : Text) : emptyRow text = (suffixes text).map (accepts []) := by
  induction text with
  | nil => rfl
  | cons char rest inductionHypothesis => simp [emptyRow, suffixes, accepts, inductionHypothesis]

/-- A run before tokens is accepted where one of the ends is. -/
theorem runRow_eq (accepted : Text → Bool) (text : Text) :
    runRow ((suffixes text).map accepted) =
      (suffixes text).map fun tail => (suffixes tail).any accepted := by
  induction text with
  | nil => rfl
  | cons char rest inductionHypothesis =>
      simp only [suffixes, List.map_cons, runRow, inductionHypothesis, List.any_cons]
      rw [first_map_suffixes]

/-- A slash row says which ends have an accepted end behind a slash. -/
theorem slashRow_eq (accepted : Text → Bool) (text : Text) :
    slashRow text ((suffixes text).map accepted) =
      (suffixes text).map fun tail => (suffixesAfterSlash tail).any accepted := by
  induction text with
  | nil => simp [suffixes, slashRow, suffixesAfterSlash]
  | cons char rest inductionHypothesis =>
      simp only [suffixes, List.map_cons, slashRow, inductionHypothesis]
      rw [first_map_suffixes, first_map_suffixes]
      by_cases slash : char = '/' <;> simp [suffixesAfterSlash, slash]

/-- A token for one character is accepted where it admits the character and what follows
    is accepted. -/
theorem charRow_eq (token : GlobToken) (accepted : Text → Bool) (text : Text) :
    charRow token text ((suffixes text).map accepted) =
      (suffixes text).map fun tail =>
        match tail with
        | char :: rest => admits token char && accepted rest
        | [] => false := by
  induction text with
  | nil => rfl
  | cons char rest inductionHypothesis =>
      simp only [suffixes, List.map_cons, charRow, inductionHypothesis]
      rw [first_map_suffixes]

/-- The row of tokens says of each end of a text whether the tokens stand for it. -/
theorem row_eq (tokens : List GlobToken) (text : Text) :
    row tokens text = (suffixes text).map (accepts tokens) := by
  induction tokens with
  | nil => exact emptyRow_eq text
  | cons token tokens inductionHypothesis =>
      cases token with
      | anyRun =>
          simp only [row, inductionHypothesis, runRow_eq]
          exact List.map_congr_left fun tail _ => by simp [accepts]
      | anyPieces =>
          simp only [row, inductionHypothesis, slashRow_eq, List.zipWith_map, List.zipWith_self]
          exact List.map_congr_left fun tail _ => by simp [accepts]
      | _ =>
          simp only [row, inductionHypothesis, charRow_eq]
          exact List.map_congr_left fun tail _ => by cases tail <;> simp [accepts]

/-- Matching by rows is matching. -/
theorem matchesText_eq (tokens : List GlobToken) (text : Text) :
    matchesText tokens text = accepts tokens text := by
  rw [matchesText, row_eq, first_map_suffixes]

end Glob

end TagWrap
