import SourceEdit.FileTree
import SourceEdit.Ignore.Rule

/-!
# Personal ignore rules

A user may name a file of ignore rules in the settings of version control. The setting is looked
for line by line, whatever section it stands in; where it is missing, the rules are in a standard
place.
-/

namespace SourceEdit.PersonalRules

def isSpace (c : Char) : Bool :=
  let n := c.toNat
  (9 ≤ n && n ≤ 13) || n == 32

def skipSpaces (cs : List Char) : List Char := cs.dropWhile isSpace

/-- Whether nothing but spaces stands between here and the end of a line. -/
def lineEnds (cs : List Char) : Bool :=
  (cs.takeWhile isSpace).contains '\n' || (skipSpaces cs).isEmpty

/-- Whether a value may end here: before the end of a line, or a quote and the end of a line. -/
def valueEnds (cs : List Char) : Bool :=
  lineEnds cs ||
    match skipSpaces cs with
    | '"' :: rest => lineEnds rest
    | _ => false

/-- The shortest text without spaces after which a value may end. -/
def shortestValue? : List Char → Option (List Char)
  | [] => none
  | c :: cs =>
    if isSpace c then none
    else if valueEnds cs then some [c]
    else (shortestValue? cs).map (c :: ·)

/-- The value after the equals sign. A quote before it does not count, if there is a value
behind. -/
def value? (cs : List Char) : Option (List Char) :=
  let cs := skipSpaces cs
  match cs with
  | '"' :: rest => shortestValue? (skipSpaces rest) <|> shortestValue? cs
  | _ => shortestValue? cs

def settingName : List Char := "excludesfile".toList

/-- The value of the setting, if its name stands here. -/
def settingHere? (cs : List Char) : Option (List Char) :=
  let cs := skipSpaces cs
  if (cs.take settingName.length).map Char.toLower = settingName then
    match skipSpaces (cs.drop settingName.length) with
    | '=' :: rest => value? rest
    | _ => none
  else none

def setting? (text : String) : Option String :=
  let lines := Text.fields '\n' text.toList
  let starts := (List.range lines.length).map fun n => Text.join '\n' (lines.drop n)
  (starts.findSome? settingHere?).map String.ofList

def expandHome (home : String) (path : String) : String :=
  String.ofList (path.toList.flatMap fun c => if c = '~' then home.toList else [c])

def settingIn? (disk : Disk) (path : List String) : Option String :=
  match disk.tree.text? path with
  | some (.ok text) => setting? text
  | _ => none

/-- The path of the rules: from the settings in the home directory, then from those in the
directory of configurations, else the standard one. -/
def path? (disk : Disk) (home configDirectory : List String) : Option (List String) :=
  match settingIn? disk (home ++ [".gitconfig"]) <|>
      settingIn? disk (configDirectory ++ ["git", "config"]) with
  | some text => disk.locate? (expandHome (disk.fullText (pathText home)) text)
  | none => some (configDirectory ++ ["git", "ignore"])

def load (disk : Disk) (home configDirectory : List String) : IgnoreRules :=
  match (path? disk home configDirectory).bind disk.tree.bytes? with
  | some bytes => .ofBytes bytes
  | none => {}

end SourceEdit.PersonalRules
