import CanvasPage.ClassBlock.Member

namespace CanvasPage.ClassBlock

open Script

section Patterns

open Pattern

def header : Pattern :=
  let typeArguments := optional (blanks ++ "<" ++ many (noneOf ">\x7b") ++ ">")
  wordBoundary ++ "class" ++ blanks1 ++ group 1 Candidate.identifier ++ typeArguments ++
    optional (blanks1 ++ "extends" ++ blanks1 ++
      group 2 (Candidate.identifierStart ++
        many (one fun c => Text.isWordChar c || c == '$' || c == '.')) ++ typeArguments) ++
    optional (blanks1 ++ "implements" ++ blanks1 ++ lazyMany1 (noneOf "\x7b")) ++ blanks ++ "\x7b"

end Patterns

/-- The class that a header begins, and its length in characters. -/
def ofHeader? (o : Occurrence) : Option (ClassBlock × Nat) := do
  let (body, _) ← Bracket.brace.enclosed? o.stop.after
  let stop := o.stop.offset + Text.byteLength body + 1
  let members := Member.scanFrom o.stop.offset 0 body
  let parent := (o.group? 2).map (·.text)
  return (ofMembers (o.groupText 1) parent ⟨o.start.offset, stop⟩ members,
    o.width + body.length + 1)

/-- The classes of a text that follows `before`. `covered` characters still belong to what was read
last. A header whose body never closes is passed over. -/
def scanFrom (covered : Nat) (before : Text) : Text → List ClassBlock
  | [] => []
  | c :: rest =>
      match covered with
      | covered + 1 => scanFrom covered (c :: before) rest
      | 0 =>
          match header.at? ⟨before, c :: rest⟩ with
          | none => scanFrom 0 (c :: before) rest
          | some o =>
              match ofHeader? o with
              | none => scanFrom (o.width - 1) (c :: before) rest
              | some (block, width) => block :: scanFrom (width - 1) (c :: before) rest

/-- The class blocks of a source, in order. -/
def scan (source : Text) : List ClassBlock := scanFrom 0 [] source

end CanvasPage.ClassBlock
