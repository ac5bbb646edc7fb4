import JarRefit.Access.Change
import JarRefit.Notice
import JarRefit.Text.Split

/-!
# Access directives

One line of an access transformer: an access token, the path of a class, and at most one member
of it, such as `public-f net.minecraft.world.World func_72838_d(Lnet/minecraft/entity/Entity;)Z`.
A `#` starts a comment, and a `.` in a path stands for `/`.
-/
namespace JarRefit.Access

/-- A line without its comment and without the blanks around it, with `/` for every `.`; nothing
if no text is left. -/
def normalizeLine (line : String) : Option String :=
  let content := Text.trim (line.toList.takeWhile (· != '#'))
  if content.isEmpty then none
  else some (String.ofList (content.map fun c => if c = '.' then '/' else c))

/-- A member as a directive names it: a bare name, or a name with a descriptor. -/
structure MemberTarget where
  name : String
  descriptor : Option String
deriving DecidableEq, Repr

namespace MemberTarget

/-- The name ends at the first opening parenthesis, where the descriptor starts. -/
def ofToken (token : String) : MemberTarget :=
  match Text.cut? '(' token.toList with
  | some (name, rest) => ⟨String.ofList name, some (String.ofList ('(' :: rest))⟩
  | none => ⟨token, none⟩

/-- The member as the directive writes it. -/
def token (m : MemberTarget) : String :=
  m.name ++ m.descriptor.getD ""

end MemberTarget

/-- What a directive asks of which symbol. A directive without member aims at the class. -/
structure Directive where
  ownerPath : List String
  member : Option MemberTarget
  change : Change
deriving DecidableEq, Repr

namespace Directive

/-- The internal name of the class. -/
def owner (d : Directive) : String :=
  "/".intercalate d.ownerPath

/-- The key of the symbol in an access table: the owner, or owner and member joined by a dot. -/
def key (d : Directive) : String :=
  match d.member with
  | some m => d.owner ++ "." ++ m.token
  | none => d.owner

/-- The path segments of a class, without empty ones. -/
def ownerSegments (path : String) : List String :=
  ((Text.splitWhere (· == '/') path.toList).filter (fun s => !s.isEmpty)).map String.ofList

/-- The words of a line after normalization. -/
def lineWords (line : String) : List String :=
  match normalizeLine line with
  | none => []
  | some text => (Text.words text.toList).map String.ofList

/-- The symbol path and the directive of a line. Lines with nothing but a comment and lines
without a target hold none; words after the member are ignored. -/
def parse? (line : String) : Option (String × Directive) :=
  match lineWords line with
  | access :: owner :: rest =>
    let member := rest.head?
    some (" ".intercalate (owner :: member.toList),
      ⟨ownerSegments owner, member.map .ofToken, .ofToken access⟩)
  | _ => none

/-- What there is to report about a line. -/
def notices (line : String) : List Notice :=
  match lineWords line with
  | [_] => [.directiveWithoutTarget (String.ofList (Text.trim line.toList))]
  | _ :: _ :: _ :: _ :: _ => [.directiveTrailingWords (String.ofList (Text.trim line.toList))]
  | _ => []

end Directive

end JarRefit.Access
