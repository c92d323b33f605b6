import Dinit.Control.EnvLayers

namespace Dinit

/-- `isspace` in the classic locale -/
def isSpace (c : UInt8) : Bool := c==32 || (9≤ c && c≤13)

/-- The lines of a file, without the newlines. -/
def fileLines : List UInt8 → List (List UInt8)
  | [] => [[]]
  | c::cs =>
    if c=10 then []::fileLines cs
    else (c::(fileLines cs).headD [])::(fileLines cs).tail

/-- The text from `i` up to `j`, which is behind it, as iterators: each is what is left of the line. -/
def between (i j : List UInt8) : List UInt8 := i.take (i.length-j.length)

theorem head_not_space {l t : List UInt8} {c : UInt8} (h : l.dropWhile isSpace=c::t) :
    isSpace c=false := by
  have hne : l.dropWhile isSpace≠[] := by simp [h]
  have hnot := List.head_dropWhile_not isSpace hne
  simpa [h] using hnot

/-- The arguments of a command -/
def cmdArgs (epos : List UInt8) : List (List UInt8) :=
  match h : epos.dropWhile isSpace with
  | [] => []
  | c::t => between (c::t) ((c::t).dropWhile (!isSpace ·))::
      cmdArgs ((c::t).dropWhile (!isSpace ·))
termination_by epos.length
decreasing_by
  have h1 : (epos.dropWhile isSpace).length≤ epos.length := (List.dropWhile_sublist _).length_le
  have h2 : (t.dropWhile (!isSpace ·)).length≤ t.length := (List.dropWhile_sublist _).length_le
  rw [h,List.length_cons] at h1
  rw [List.dropWhile_cons_of_pos (by simp [head_not_space h])]
  omega

def runCommand (cmd : List UInt8) (args : List (List UInt8)) (env : Environment) : Environment :=
  if cmd=[99,108,101,97,114] then env.clearNoInherit
  else if cmd=[117,110,115,101,116] then args.foldl Environment.undefineVar env
  else if cmd=[105,109,112,111,114,116] then args.foldl Environment.importParentVar env
  else env

/-- One line in `read_env_file_inline`. There is no result if an iterator leaves the line. -/
def readEnvLine (line : List UInt8) (env : Environment) : Option Environment :=
  match line.dropWhile isSpace with
  | [] => some env
  | c::lpos =>
    if c=35 then some env
    else if c=61 then some env
    else if c=33 then
      match lpos with
      | [] => none
      | _::epos =>
        let epos := epos.dropWhile (!isSpace ·)
        some (runCommand (between lpos epos) (cmdArgs epos) env)
    else
      let nameEnd := lpos.dropWhile fun c => c != 61 && !isSpace c
      match nameEnd.dropWhile isSpace with
      | [] => some env
      | d::value =>
        if d≠61 then some env
        else if value.length+1≠nameEnd.length ∨ lpos.length+1≠line.length then
          some (env.setVar (between (c::lpos) nameEnd++61::value))
        else some (env.setVar line)

/-- `read_env_file_inline`, on the lines of the file -/
def readEnvLines : List (List UInt8) → Environment → Option Environment
  | [],env => some env
  | line::lines,env => (readEnvLine line env).bind (readEnvLines lines)

def readEnvFile (content : List UInt8) (env : Environment) : Option Environment :=
  readEnvLines (fileLines content) env

end Dinit
