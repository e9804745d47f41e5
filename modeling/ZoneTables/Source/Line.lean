import ZoneTables.Source.Field

/-!
# Source lines

A line of a source is a rule, a link, the first line of a zone, or a further line of a zone; the
last starts with a blank.
-/

namespace ZoneTables.Source

open Text

/-- Why a line cannot be read. -/
inductive LineError where
  | empty
  | unrecognized (line : List Char)
  | link (line : List Char)
  | zone (line : List Char)
  | rule (line : List Char)
  /-- A rule's last year comes before its first. -/
  | years (toYear fromYear : Int)
  | field (error : FieldError)
deriving DecidableEq

def LineError.message : LineError → String
  | empty => "Empty line"
  | unrecognized line => s!"Unrecognized line: {String.ofList line}"
  | link line => s!"Invalid Link line: {String.ofList line}"
  | zone line => s!"Invalid Zone line: {String.ofList line}"
  | rule line => s!"Invalid Rule line: {String.ofList line}"
  | years toYear fromYear => s!"Rule TO year {toYear} before FROM {fromYear}"
  | field error => error.message

instance : MonadLift (Except FieldError) (Except LineError) where
  monadLift x := x.mapError .field

inductive Line where
  | rule (rule : Rule)
  | link (target name : String)
  | zone (name : String) (line : ZoneLine)
  | continuation (line : ZoneLine)
deriving DecidableEq

/-- The first year of a rule. -/
def readFromYear (text : List Char) : Except FieldError Int :=
  if lower text = "min".toList ∨ lower text = "minimum".toList then .ok Rule.earliestYear
  else readYear text

/-- The last year of a rule. -/
def readToYear (fromYear : Int) (text : List Char) : Except FieldError Int :=
  if lower text = "only".toList then .ok fromYear
  else if lower text = "max".toList ∨ lower text = "maximum".toList then .ok Rule.latestYear
  else readYear text

/-- An amount of daylight saving, which may carry a letter for its kind. -/
def readSave (toMinutes : Bool) (text : List Char) : Except FieldError Int :=
  let amount :=
    match text.getLast? with
    | some 's' | some 'd' => text.dropLast
    | _ => text
  (readTime amount).map (roundIf toMinutes)

/-- The fields of a rule line after its keyword. The fourth is not looked at. -/
def readRule (toMinutes : Bool) (line : List Char) : List (List Char) → Except LineError Rule
  | name :: first :: last :: _ :: month :: day :: time :: save :: rest => do
    if 1 < rest.length then .error (.rule line)
    let fromYear ← readFromYear first
    let toYear ← readToYear fromYear last
    if toYear < fromYear then .error (.years toYear fromYear)
    let inMonth ← readMonth month
    let on ← readDay day
    let (time, suffix) ← splitSuffix time
    let seconds ← readTime time
    let save ← readSave toMinutes save
    let letters := rest.headD ['-']
    return {
      name := String.ofList name
      fromYear, toYear, month := inMonth, on
      time := seconds
      clock := Clock.ofSuffix suffix
      save
      letters := if letters = ['-'] then "" else String.ofList letters
      text := String.ofList (trim isBlank line) }
  | _ => .error (.rule line)

/-- How a zone line observes daylight saving: not at all, by an amount, or by rules. -/
def readSaving (toMinutes : Bool) (text : List Char) : Except FieldError Saving :=
  match text with
  | ['-'] => .ok (.fixed 0)
  | c :: _ =>
    if isDigit c ∨ c = '-' then (readTime text).map (.fixed <| roundIf toMinutes ·)
    else .ok (.ruled (String.ofList text))
  | [] => .ok (.ruled "")

/-- The fields of a zone line. -/
def readZoneLine (toMinutes : Bool) (line : List Char) :
    List (List Char) → Except LineError ZoneLine
  | offset :: saving :: format :: rest => do
    let stdoff := roundIf toMinutes (← readTime offset)
    let saving ← readSaving toMinutes saving
    let (ending, endingClock) ← match rest with
      | [] => pure (endOfTime, Clock.wall)
      | year :: fields => readEnding stdoff toMinutes year fields
    return {
      stdoff, saving
      format := String.ofList format
      ending, endingClock
      text := String.ofList (trim isBlank line) }
  | _ => .error (.zone line)

/-- A line without its comment. -/
def Line.read (toMinutes : Bool) (line : List Char) : Except LineError Line :=
  match words line with
  | [] => .error .empty
  | keyword :: fields =>
    if isBlank (line.headD 'x') then
      (readZoneLine toMinutes line (keyword :: fields)).map .continuation
    else if keyword = "Rule".toList then (readRule toMinutes line fields).map .rule
    else if keyword = "Link".toList then
      match fields with
      | [target, name] => .ok (.link (String.ofList target) (String.ofList name))
      | _ => .error (.link line)
    else if keyword = "Zone".toList then
      match fields with
      | name :: rest@(_ :: _ :: _ :: _) =>
        (readZoneLine toMinutes line rest).map (.zone (String.ofList name))
      | _ => .error (.zone line)
    else .error (.unrecognized line)

end ZoneTables.Source
