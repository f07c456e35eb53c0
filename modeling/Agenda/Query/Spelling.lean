import Agenda.Query.Grammar

/-!
Queries written as text: the keywords in upper case, the clauses in the order of the grammar, and
every name, file and literal in single quotes.
-/

namespace Agenda.Query

/-! ### Words -/

namespace Word

def quote (t : Text) : Word := ⟨t, true⟩

def bare (t : Text) : Word := ⟨t, false⟩

/-- A word as it is written: in single quotes, of which those inside are written twice, or as it is.
A comma is written as `comma`, which has the blanks around it. -/
def spell (comma : Text) (w : Word) : Text :=
  if w.quoted then '\'' :: (Text.replaceChar '\'' ['\'', '\''] w.text ++ ['\''])
  else if w.text = [','] then comma
  else w.text

end Word

def spellAll (comma : Text) : List Word → Text
  | [] => []
  | [w] => w.spell comma
  | v :: w :: ws =>
    v.spell comma ++ (if v.isComma || w.isComma then [] else [' ']) ++ spellAll comma (w :: ws)

/-! ### Queries -/

def withCommas (groups : List (List Word)) : List Word :=
  List.intercalate [Word.bare [',']] groups

def clause (keyword : Text) : Option (List Word) → List Word
  | none => []
  | some ws => Word.bare keyword :: ws

def Test.toWords : Test → List Word
  | .compare op literal => [Word.bare op.symbol, literal]
  | .isNull => [Word.bare "IS", Word.bare "NULL"]
  | .isNotNull => [Word.bare "IS", Word.bare "NOT", Word.bare "NULL"]

def Condition.toWords (c : Condition) : List Word := Word.quote c.key :: c.test.toWords

def Filter.toWords : Filter → List Word
  | .single c => c.toWords
  | .pair left combinator right =>
    left.toWords ++ Word.bare combinator.keyword :: right.toWords

def SortKey.toWords (k : SortKey) : List Word :=
  [Word.quote k.key, Word.bare k.direction.keyword]

def orderWords? : List SortKey → Option (List Word)
  | [] => none
  | k :: ks => some (Word.bare "BY" :: withCommas ((k :: ks).map SortKey.toWords))

def Assignment.toWords (a : Assignment) : List Word :=
  [Word.quote a.key, Word.bare "=", a.literal]

def Selection.clauses (s : Selection) : List Word :=
  clause "WHERE" (s.filter.map Filter.toWords) ++
    (clause "ORDER" (orderWords? s.order) ++
      (clause "LIMIT" (s.limit.map fun n => [Word.bare (Text.ofNat n)]) ++
        clause "INTO" (s.target.map fun t => [Word.quote t])))

def toWords : Query → List Word
  | .select s =>
    Word.bare "SELECT" :: (withCommas (s.columns.map fun c => [Word.quote c]) ++
      Word.bare "FROM" :: Word.quote s.file :: s.clauses)
  | .update file assignments filter =>
    Word.bare "UPDATE" :: Word.quote file :: Word.bare "SET" ::
      (withCommas (assignments.map Assignment.toWords) ++
        clause "WHERE" (filter.map Filter.toWords))
  | .delete file filter =>
    Word.bare "DELETE" :: Word.bare "FROM" :: Word.quote file ::
      clause "WHERE" (filter.map Filter.toWords)
  | .insert file assignments =>
    Word.bare "INSERT" :: Word.bare "INTO" :: Word.quote file :: Word.bare "SET" ::
      withCommas (assignments.map Assignment.toWords)

def text (comma : Text) (q : Query) : Text := spellAll comma q.toWords

end Agenda.Query
