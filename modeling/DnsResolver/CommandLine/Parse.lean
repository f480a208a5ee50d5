import DnsResolver.CommandLine.Settings

/-!
# Command lines

Arguments are read from left to right.  The value of a parameter is attached to it, or it is the
next argument, which must not begin with a hyphen then.  A parameter whose value stands apart is
settled when the next parameter is met, or at the end.
-/

namespace DnsResolver
namespace CommandLine

/-- The parameters of the program. -/
inductive Parameter where
  | listen
  | port
  | cacheCapacity
  | replyTimeout
  | maxDepth
  | rootServer
  | followReferrals
  | logLevel
  | logTarget
  | help
  | version
  deriving DecidableEq, Repr

/-- The reasons why a command line gives no settings. -/
inductive UsageError where
  /-- An argument is none that the program knows. -/
  | unknownArgument
  /-- A parameter is given twice. -/
  | argumentConflict
  /-- A value is missing, or it is none of the possible ones. -/
  | invalidValue
  /-- A value cannot be read. -/
  | valueValidation
  /-- A value is given to a parameter that takes none. -/
  | tooManyValues
  /-- Help was asked for. -/
  | displayHelp
  /-- The version was asked for. -/
  | displayVersion
  deriving DecidableEq, Repr

namespace Parameter

/-- All parameters by their long names. -/
def longNames : List (String × Parameter) :=
  [("listen", listen), ("port", port), ("cache-capacity", cacheCapacity),
    ("upstream-timeout-ms", replyTimeout), ("max-depth", maxDepth),
    ("root-server", rootServer), ("follow-referrals", followReferrals), ("log-level", logLevel),
    ("log-target", logTarget), ("help", help), ("version", version)]

/-- The parameters that have a letter, too. -/
def letters : List (Char × Parameter) :=
  [('l', listen), ('p', port), ('h', help), ('V', version)]

/-- Whether the parameter has a value. -/
def takesValue : Parameter → Bool
  | followReferrals | help | version => false
  | _ => true

/-- Whether the parameter may be given more than once. -/
def repeatable : Parameter → Bool
  | rootServer => true
  | _ => false

/-- Reads the value of a parameter into the settings. -/
def assign (settings : Settings) (value : String) :
    Parameter → Except UsageError Settings
  | listen => (IPAddress.ofString? value).elim (.error .valueValidation)
      fun address => .ok { settings with listen := address }
  | port => (Settings.signed? 65536 value).elim (.error .valueValidation)
      fun n => .ok { settings with port := UInt16.ofNat n }
  | cacheCapacity => (Settings.capacity? value).elim (.error .valueValidation)
      fun capacity => .ok { settings with cacheCapacity := capacity }
  | replyTimeout => (Settings.unsigned? 18446744073709551616 value).elim
      (.error .valueValidation) fun n => .ok { settings with timeout := n }
  | maxDepth => (Settings.unsigned? 18446744073709551616 value).elim
      (.error .valueValidation) fun n => .ok { settings with maxDepth := n }
  | rootServer => (IPv4.ofString? value).elim (.error .valueValidation)
      fun address => .ok { settings with rootServers := settings.rootServers ++ [address] }
  | logLevel => (LogLevel.ofString? value).elim (.error .invalidValue)
      fun level => .ok { settings with logLevel := level }
  | logTarget => (LogTarget.ofString? value).elim (.error .invalidValue)
      fun target => .ok { settings with logTarget := target }
  | followReferrals | help | version => .error .tooManyValues

end Parameter

/-- A parameter whose value stands apart from it, and the value as far as it has come. -/
structure Pending where
  parameter : Parameter
  value? : Option String
  deriving DecidableEq, Repr

/-- What has been read of a command line. -/
structure Progress where
  settings : Settings := {}
  /-- The parameters that have been settled. -/
  seen : List Parameter := []
  pending? : Option Pending := none
  deriving DecidableEq, Repr

namespace Progress

/-- Notes that a parameter is settled; most may be settled once only. -/
def mark (progress : Progress) (parameter : Parameter) : Except UsageError Progress :=
  if parameter ∈ progress.seen ∧ !parameter.repeatable then .error .argumentConflict
  else .ok { progress with seen := parameter :: progress.seen }

/-- Settles a parameter with its value. -/
def assign (progress : Progress) (parameter : Parameter) (value : String) :
    Except UsageError Progress := do
  let progress ← progress.mark parameter
  let settings ← parameter.assign progress.settings value
  return { progress with settings }

/-- Settles the parameter that is still open, which needs its value now. -/
def settle (progress : Progress) : Except UsageError Progress :=
  match progress.pending? with
  | none => .ok progress
  | some { parameter, value? } =>
    match value? with
    | none => .error .invalidValue
    | some value => { progress with pending? := none }.assign parameter value

/-- Settles a parameter without a value. -/
def raise (progress : Progress) (parameter : Parameter) : Except UsageError Progress := do
  let progress ← progress.settle
  match parameter with
  | .help => .error .displayHelp
  | .version => .error .displayVersion
  | .followReferrals =>
    let progress ← progress.mark parameter
    return { progress with settings.followReferrals := true }
  | _ => .error .invalidValue

/-- Meets a parameter that takes a value, which may be attached. -/
def openValue (progress : Progress) (parameter : Parameter) (attached? : Option String) :
    Except UsageError Progress := do
  let progress ← progress.settle
  match attached? with
  | some value => progress.assign parameter value
  | none => return { progress with pending? := some ⟨parameter, none⟩ }

/-- Reads an argument that begins with two hyphens: a long name, and a value behind an equals
sign. -/
def readLong (progress : Progress) (text : List Char) : Except UsageError Progress :=
  let name := String.ofList (text.takeWhile (· ≠ '='))
  let attached? : Option String :=
    match text.dropWhile (· ≠ '=') with
    | [] => none
    | _ :: value => some (String.ofList value)
  match Parameter.longNames.lookup name with
  | none => .error .unknownArgument
  | some parameter =>
    if parameter.takesValue then progress.openValue parameter attached?
    else if attached?.isSome then .error .tooManyValues
    else progress.raise parameter

/-- Reads the letters behind one hyphen.  What follows the letter of a parameter with a value is
that value, in front of which one equals sign may stand. -/
def readLetters (progress : Progress) : List Char → Except UsageError Progress
  | [] => .ok progress
  | letter :: rest =>
    match Parameter.letters.lookup letter with
    | none => .error .unknownArgument
    | some parameter =>
      if parameter.takesValue then
        match rest with
        | [] => progress.openValue parameter none
        | '=' :: value => progress.openValue parameter (some (String.ofList value))
        | value => progress.openValue parameter (some (String.ofList value))
      else
        match progress.raise parameter with
        | .ok progress => readLetters progress rest
        | .error error => .error error

/-- Reads an argument that does not begin with a hyphen; it has to be an awaited value. -/
def readValue (progress : Progress) (text : String) : Except UsageError Progress :=
  match progress.pending? with
  | some { parameter, value? := none } =>
    .ok { progress with pending? := some ⟨parameter, some text⟩ }
  | _ => .error .unknownArgument

/-- Reads all arguments; two hyphens alone end the parameters, and nothing may follow them. -/
def readAll (progress : Progress) : List String → Except UsageError Progress
  | [] => progress.settle
  | argument :: rest => do
    match argument.toList with
    | ['-', '-'] => if rest.isEmpty then progress.settle else .error .unknownArgument
    | '-' :: '-' :: text => readAll (← progress.readLong text) rest
    | '-' :: letter :: text => readAll (← progress.readLetters (letter :: text)) rest
    | _ => readAll (← progress.readValue argument) rest

end Progress

/-- The settings that the arguments of the program ask for. -/
def parse (arguments : List String) : Except UsageError Settings := do
  let progress ← Progress.readAll {} arguments
  return progress.settings

end CommandLine
end DnsResolver
