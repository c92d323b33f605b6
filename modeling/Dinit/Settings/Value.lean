import Dinit.Control.EnvFile

namespace Dinit

inductive SettingOp where
  | assign
  | colon
  | plusAssign
deriving DecidableEq

/-- A `service_description_exc`, at a line, or an iterator that leaves the line -/
inductive SettingFault where
  | descriptionExc (lineNum : UInt32) (excInfo : String)
  | pastEnd
deriving DecidableEq

/-- `skip_ws_ln`. An iterator is what is left of the line. -/
def skipWsLn (count : UInt32) : List UInt8 → UInt32 × List UInt8
  | [] => (count,[])
  | c::i =>
    let lines := if c=10 then count+1 else count
    if isSpace c then skipWsLn lines i else (lines,c::i)

/-- `skip_comment`, from inside a comment or not -/
def skipComment (comment : Bool) (count : UInt32) : List UInt8 → UInt32 × List UInt8
  | [] => (count,[])
  | c::i =>
    let inside := if c=35 then true else if c=10 then false else comment
    let lines := if c=10 then count+1 else count
    if !inside && !isSpace c then (lines,c::i) else skipComment inside lines i

def isNameChar (env : Bool) (c : UInt8) : Bool :=
  ((c==45 || c==46) && !env) || c==95 || (48≤ c && c≤57) || (65≤ c && c≤90) ||
    (97≤ c && c≤122) || 128≤ c

def isNumeral (c : UInt8) : Bool := 48≤ c && c≤57

/-- `read_config_name` at `i`, which is `left` before `end`: the name, and whether it is a number.
The iterator moves on by the length of the name. -/
def readConfigName (env : Bool) (left : Nat) (i : List UInt8) : List UInt8 × Bool :=
  let c := i.headD 0
  if env && isNumeral c then (i.takeWhile isNumeral,true)
  else if left=0 ∨ c=45 ∨ c=46 ∨ isNumeral c=true then ([],false)
  else ((i.take left).takeWhile (isNameChar env),false)

/-- A value that is being read, and its parts if they are asked for -/
structure SettingValue where
  settingVal : List UInt8
  partPositions : Option (List (UInt32 × UInt32))
  newPart : Bool
  partStart : UInt32
  lineNum : UInt32
deriving DecidableEq

namespace SettingValue

def beginPart (s : SettingValue) : SettingValue :=
  if s.newPart then {s with partStart := .ofNat s.settingVal.length,newPart := false} else s

def endPart (s : SettingValue) : SettingValue :=
  match s.newPart,s.partPositions with
  | false,some ps =>
    {s with partPositions := some (ps++[(s.partStart,.ofNat s.settingVal.length)]),newPart := true}
  | _,_ => s

def append (s : SettingValue) (c : UInt8) : SettingValue :=
  {s with settingVal := s.settingVal++[c]}

end SettingValue

/-- A quoted string, from behind its first quote mark to its last -/
def readQuoted (s : SettingValue) : List UInt8 → Except SettingFault (SettingValue × List UInt8)
  | [] => .error (.descriptionExc s.lineNum "unterminated quoted string")
  | c::i =>
    if c=34 then .ok (s,i)
    else if c=92 then
      match i with
      | [] => .error .pastEnd
      | d::i => readQuoted (s.append d) i
    else readQuoted (s.append c) i

@[simp] theorem readQuoted_end (s : SettingValue) (i : List UInt8) :
    readQuoted s (34::i)=.ok (s,i) := by rw [readQuoted.eq_def]; simp

@[simp] theorem readQuoted_escape (s : SettingValue) (d : UInt8) (i : List UInt8) :
    readQuoted s (92::d::i)=readQuoted (s.append d) i := by rw [readQuoted.eq_def]; simp

theorem readQuoted_plain (s : SettingValue) (c : UInt8) (i : List UInt8) (h : c≠34) (hb : c≠92) :
    readQuoted s (c::i)=readQuoted (s.append c) i := by
  rw [readQuoted.eq_def]; simp [h,hb]

theorem readQuoted_length {s t : SettingValue} {i j : List UInt8} (h : readQuoted s i=.ok (t,j)) :
    j.length< i.length := by
  fun_induction readQuoted s i with
  | case1 s => cases h
  | case2 s i => cases h; simp
  | case3 s hd => cases h
  | case4 s d i hd ih => simp only [List.length_cons]; have hj := ih h; omega
  | case5 s c i h1 h2 ih => simp only [List.length_cons]; have hj := ih h; omega

theorem skipComment_length (comment : Bool) (count : UInt32) (i : List UInt8) :
    (skipComment comment count i).2.length≤ i.length := by
  induction i generalizing comment count with
  | nil => simp [skipComment]
  | cons c i ih =>
    simp only [skipComment]
    generalize (if c=35 then true else if c=10 then false else comment)=inside
    by_cases h : (!inside && !isSpace c)=true
    · rw [if_pos h]
    · rw [if_neg h]
      exact (ih _ _).trans (by simp)

theorem skipComment_space (count : UInt32) (c : UInt8) (i : List UInt8) (h : isSpace c=true) :
    skipComment false count (c::i)=skipComment false (if c=10 then count+1 else count) i := by
  have hc : c≠35 := by rintro rfl; exact absurd h (by decide)
  simp [skipComment,h,hc]

/-- The loop of `read_setting_value`. It leaves the iterator at the end of the line. -/
def readParts (s : SettingValue) (i : List UInt8) : Except SettingFault SettingValue :=
  match i with
  | [] => .ok s.endPart
  | c::i =>
    if c=34 then
      match _h : readQuoted s.beginPart i with
      | .error e => .error e
      | .ok (t,j) => readParts t j
    else if c=92 then
      match i with
      | [] => .error .pastEnd
      | d::i => readParts (s.beginPart.append d) i
    else if _hs : isSpace c=true then
      match _h : skipComment false s.lineNum (c::i) with
      | (lines,[]) => .ok {s.endPart with lineNum := lines}
      | (lines,d::j) => readParts ({s.endPart with lineNum := lines}.append 32) (d::j)
    else if c=35 then
      .error (.descriptionExc s.lineNum
        "hashmark (`#') comment must be separated from setting value by whitespace")
    else readParts (s.beginPart.append c) i
termination_by i.length
decreasing_by
  · have hj := readQuoted_length _h
    simp only [List.length_cons]; omega
  · simp only [List.length_cons]; omega
  · rw [skipComment_space _ _ _ _hs] at _h
    have hj := skipComment_length false (if c=10 then s.lineNum+1 else s.lineNum) i
    rw [_h] at hj
    simp only [List.length_cons] at hj ⊢; omega
  · simp only [List.length_cons]; omega

@[simp] theorem readParts_nil (s : SettingValue) : readParts s []=.ok s.endPart := by
  rw [readParts.eq_def]

theorem readParts_quote {s t : SettingValue} {i j : List UInt8}
    (h : readQuoted s.beginPart i=.ok (t,j)) : readParts s (34::i)=readParts t j := by
  conv_lhs => rw [readParts.eq_def]
  simp only [if_true]
  split
  · simp_all
  · simp_all

@[simp] theorem readParts_escape (s : SettingValue) (d : UInt8) (i : List UInt8) :
    readParts s (92::d::i)=readParts (s.beginPart.append d) i := by
  conv_lhs => rw [readParts.eq_def]
  simp

theorem readParts_hash (s : SettingValue) (i : List UInt8) :
    readParts s (35::i)=.error (.descriptionExc s.lineNum
      "hashmark (`#') comment must be separated from setting value by whitespace") := by
  rw [readParts.eq_def]
  simp [isSpace]

theorem readParts_plain (s : SettingValue) (c : UInt8) (i : List UInt8) (hq : c≠34) (hb : c≠92)
    (hs : isSpace c=false) (hh : c≠35) :
    readParts s (c::i)=readParts (s.beginPart.append c) i := by
  conv_lhs => rw [readParts.eq_def]
  simp [hq,hb,hs,hh]

theorem readParts_last {s : SettingValue} {c : UInt8} {i : List UInt8} {n : UInt32}
    (hs : isSpace c=true) (h : skipComment false s.lineNum (c::i)=(n,[])) :
    readParts s (c::i)=.ok {s.endPart with lineNum := n} := by
  have hq : c≠34 := by rintro rfl; exact absurd hs (by decide)
  have hb : c≠92 := by rintro rfl; exact absurd hs (by decide)
  rw [readParts.eq_def]
  simp only [hq,hb,hs,if_false,dif_pos]
  split <;> simp_all

theorem readParts_next {s : SettingValue} {c d : UInt8} {i j : List UInt8} {n : UInt32}
    (hs : isSpace c=true) (h : skipComment false s.lineNum (c::i)=(n,d::j)) :
    readParts s (c::i)=readParts ({s.endPart with lineNum := n}.append 32) (d::j) := by
  have hq : c≠34 := by rintro rfl; exact absurd hs (by decide)
  have hb : c≠92 := by rintro rfl; exact absurd hs (by decide)
  conv_lhs => rw [readParts.eq_def]
  simp only [hq,hb,hs,if_false,dif_pos]
  split <;> simp_all

def readSettingValue (settingVal : List UInt8) (operation : SettingOp) (lineNum : UInt32)
    (i : List UInt8) (partPositions : Option (List (UInt32 × UInt32)) := none)
    (delimiter : UInt8 := 32) : Except SettingFault SettingValue :=
  let start := skipWsLn lineNum i
  if operation=.plusAssign then
    readParts ⟨if settingVal=[] then [] else settingVal++[delimiter],partPositions,true,0,start.1⟩
      start.2
  else readParts ⟨[],partPositions.map fun _ => [],true,0,start.1⟩ start.2

/-- The test for an odd number of backslashes, on the line from its end -/
def isOddNumber (odd : Bool) : List UInt8 → Bool
  | [] => odd
  | c::r => if c=92 then isOddNumber (!odd) r else odd

def isContinued (line : List UInt8) : Bool :=
  match line.reverse with
  | [] => false
  | c::r => c==92 && isOddNumber true r

/-- The loop of `process_service_file` that joins a line, the last one of the file that is read, with
those after it: the logical line, its last line's number, and the lines that are left -/
def logicalLine (currentLine : UInt32) (line : List UInt8) :
    List (List UInt8) → Except SettingFault (List UInt8 × UInt32 × List (List UInt8))
  | [] =>
    if isContinued line then
      .error (.descriptionExc currentLine "end-of-file follows backslash escape character (`\\')")
    else .ok (line,currentLine,[])
  | nextline::input =>
    if isContinued line then
      if (nextline.dropWhile isSpace).length=nextline.length then
        .error (.descriptionExc (currentLine+1)
          "line following line-continuation backslash (`\\') does not begin with whitespace character")
      else logicalLine (currentLine+1) (line.dropLast++10::nextline) input
    else .ok (line,currentLine,nextline::input)

/-- What a logical line is: where the value begins, for a setting or an included file -/
inductive ServiceLine where
  | comment
  | includeFile (opt : Bool) (lineNum : UInt32) (i : List UInt8)
  | metaCommand (i : List UInt8)
  | setting (name : List UInt8) (op : SettingOp) (lineNum : UInt32) (i : List UInt8)
deriving DecidableEq

def badLine (currentLine : UInt32) : Except SettingFault ServiceLine :=
  .error (.descriptionExc currentLine "badly formed line.")

/-- The operator, and the white space behind it -/
def settingLine (name : List UInt8) (currentLine lineNum : UInt32) (i : List UInt8) :
    Except SettingFault ServiceLine :=
  let value (op : SettingOp) (i : List UInt8) :=
    Except.ok (.setting name op (skipWsLn lineNum i).1 (skipWsLn lineNum i).2)
  if name=[] then badLine currentLine
  else
    match i with
    | [] => badLine currentLine
    | c::i =>
      if c=61 then value .assign i
      else if c=58 then value .colon i
      else if c=43 ∧ i.head?=some 61 then value .plusAssign i.tail
      else badLine currentLine

/-- A logical line in `process_service_file`, up to where its value is read -/
def serviceLine (currentLine lineNum : UInt32) (line : List UInt8) :
    Except SettingFault ServiceLine :=
  match skipWsLn lineNum line with
  | (_,[]) => .ok .comment
  | (lines,c::i) =>
    if c=35 then .ok .comment
    else if c=64 then
      let metaCmd := (readConfigName false i.length i).1
      let j := i.drop metaCmd.length
      if metaCmd=[105,110,99,108,117,100,101,45,111,112,116] then .ok (.includeFile true lines j)
      else if metaCmd=[105,110,99,108,117,100,101] then .ok (.includeFile false lines j)
      else if metaCmd=[109,101,116,97] then .ok (.metaCommand j)
      else .error (.descriptionExc lines "bad meta command")
    else
      let name := (readConfigName false (c::i).length (c::i)).1
      let start := skipWsLn lines ((c::i).drop name.length)
      settingLine name currentLine start.1 start.2

end Dinit
