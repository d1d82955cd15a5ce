import CssModules.Template.Placeholder

namespace CssModules.Template

/-- A character of a template that stands alone, or a text between brackets. -/
inductive Piece where
  | plain (c : Char)
  | bracketed (inner : List Char)
  deriving DecidableEq, Repr

/-- The pieces of a template. The characters `opened` have been read since the last `[`, if it is
still open. -/
def piecesFrom : (opened : Option (List Char)) → List Char → List Piece
  | none, [] => []
  | none, c :: cs => if c = '[' then piecesFrom (some []) cs else .plain c :: piecesFrom none cs
  | some inner, [] => .plain '[' :: inner.map .plain
  | some inner, c :: cs =>
    if c = '[' then .plain '[' :: inner.map .plain ++ piecesFrom (some []) cs
    else if c = ']' then .bracketed inner :: piecesFrom none cs
    else piecesFrom (some (inner ++ [c])) cs

def Piece.text : Piece → List Char
  | .plain c => [c]
  | .bracketed inner => '[' :: inner ++ [']']

theorem text_piecesFrom (opened : Option (List Char)) (cs : List Char) :
    (piecesFrom opened cs).flatMap Piece.text =
      (match opened with | none => [] | some inner => '[' :: inner) ++ cs := by
  have plain (inner : List Char) : (inner.map Piece.plain).flatMap Piece.text = inner := by
    induction inner with
    | nil => rfl
    | cons c inner ih => simp [Piece.text] at ih ⊢; exact ih
  induction cs generalizing opened with
  | nil => cases opened with
    | none => rfl
    | some inner => simp [piecesFrom, Piece.text, plain]
  | cons c cs ih => cases opened with
    | none =>
      simp only [piecesFrom]
      split
      · next h => simp [ih, h]
      · simp [ih, Piece.text]
    | some inner =>
      simp only [piecesFrom]
      split
      · next h => simp [ih, Piece.text, plain, h]
      · split
        · next h => simp [ih, Piece.text, h]
        · simp [ih]

def consText (text : List Char) : List Segment → List Segment
  | .literal t :: segments => .literal (String.ofList text ++ t) :: segments
  | segments => .literal (String.ofList text) :: segments

/-- The segments of pieces: neighbouring literal text is one segment. A failure is that of the
first placeholder that is malformed, with its text. -/
def segmentsOf : List Piece → Except (List Char × PlaceholderFault) (List Segment)
  | [] => .ok []
  | .plain c :: pieces => consText [c] <$> segmentsOf pieces
  | .bracketed inner :: pieces =>
    match Placeholder.classify inner with
    | .ok (some segment) => (segment :: ·) <$> segmentsOf pieces
    | .ok none => consText (Piece.bracketed inner).text <$> segmentsOf pieces
    | .error fault => .error (inner, fault)

def parse (source : String) : Except Error Template :=
  match segmentsOf (piecesFrom none source.toList) with
  | .ok segments => .ok ⟨source, segments⟩
  | .error (inner, fault) =>
    .error (.configuration (.malformedPlaceholder (String.ofList inner) source fault))

def defaultSource : String := "[path]___[name]__[local]___[hash:base64:5]"

end CssModules.Template
