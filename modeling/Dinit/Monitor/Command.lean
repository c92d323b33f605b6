import Dinit.Control.EnvFile

namespace Dinit

namespace Monitor

/-- The loop over a word in `split_command`: what follows the word in the text before the nul. There
is nothing where the pointer goes past the nul. -/
def word : Nat → List UInt8 → Option (List UInt8)
  | 0,c => some c
  | _+1,[] => some []
  | fuel+1,ch::c =>
    if isSpace ch then some (ch::c)
    else if ch=34 then
      match c.dropWhile (·≠34) with
      | [] => none
      | _::c => word fuel c
    else word fuel c

/-- The outer loop, with the pieces as texts -/
def splitLoop : Nat → List UInt8 → Option (List (List UInt8))
  | 0,_ => some []
  | fuel+1,c =>
    let str := c.dropWhile isSpace
    if str=[] then some []
    else
      match word str.length str with
      | none => none
      | some c =>
        let part := str.take (str.length-c.length)
        if c=[] then some [part] else (splitLoop fuel c).map (part::·)

def splitCommand (cmd : List UInt8) : Option (List (List UInt8)) := splitLoop (cmd.length+1) cmd

/-- `cmd_part_str[i]`: a string has a nul behind it, and nothing behind that. -/
def charAt (s : List UInt8) (i : Nat) : Option UInt8 := (s++[0])[i]?

section
variable (name : List UInt8) (value : Option (List UInt8)) (event : List UInt8)

/-- What `%n`, `%v` and `%s` stand for -/
def specifier (c : UInt8) : Option (List UInt8) :=
  if c=110 then some name
  else if c=118 then some (value.getD [])
  else if c=115 then some event
  else none

/-- The loop over a part in `issue_command`, from the index `i` on, with what has been put out -/
def expandFrom (i : Nat) (out : List UInt8) : List UInt8 → Option (List UInt8)
  | [] => some out
  | c::part =>
    if c=37 then
      match part with
      | [] => some (out++[37])
      | c::part =>
        match specifier name value event c with
        | some text => expandFrom (i+2) (out++text) part
        | none =>
          let out := out++[37]
          match charAt out (i+1) with
          | none => none
          | some c => expandFrom (i+2) (out++[c]) part
    else if c=34 then expandFrom (i+1) out part
    else expandFrom (i+1) (out++[c]) part

def expand (part : List UInt8) : Option (List UInt8) := expandFrom name value event 0 [] part

end

end Monitor

end Dinit
