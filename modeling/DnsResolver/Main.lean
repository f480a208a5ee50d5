import DnsResolver.CommandLine.Help
import DnsResolver.Transcript

/-!
# The program

Reads settings from the command line and transcripts from standard input, one from each line.  The
reply to every message that gets one is written to standard output in hexadecimal; log lines go to
standard error.
-/

namespace DnsResolver
namespace Main

/-- The number of nanoseconds in a second. -/
def nanoseconds : Nat := 1000000000

/-- Reads transcripts until the input ends, with the cache kept from one to the next. -/
partial def replay (settings : Settings) (cache : RecordCache) (input output errors : IO.FS.Stream) :
    IO Unit := do
  let line ← input.getLine
  if line.isEmpty then
    return
  let some transcript := Transcript.ofLine? line
    | errors.putStrLn "error: this line is no transcript"
      replay settings cache input output errors
  let time ← IO.monoNanosNow
  let seed ← IO.rand 0 65535
  let resolver : Resolver (List (Option Octets)) :=
    { config := settings.resolverConfig
      network := Transcript.network
      ids := fun n => UInt16.ofNat (seed + n * 40503)
      starts := fun n => seed + n
      clock := fun _ => time
      second := nanoseconds }
  let message : Message :=
    { data := transcript.request, peer := settings.listenAddress, transport := .udp, source := 0 }
  let (reply?, state) :=
    (resolver.serveMessage message).run { cache, network := transcript.replies }
  let lines := LogEntry.lines settings.logTarget settings.logLevel
    (state.trace.filterMap Event.logEntry?)
  lines.forM errors.putStrLn
  match reply? with
  | some reply => output.putStrLn (Hex.ofOctets reply.data)
  | none => pure ()
  output.flush
  replay settings state.cache input output errors

end Main
end DnsResolver

open DnsResolver in
/-- Runs the program with the given arguments. -/
def main (arguments : List String) : IO UInt32 := do
  match CommandLine.parse arguments with
  | .error error =>
    if error.isRequest then
      IO.println error.message
      return 0
    else
      IO.eprintln error.message
      return 2
  | .ok settings =>
    let cache := Cache.empty settings.cacheCapacity Main.nanoseconds
    Main.replay settings cache (← IO.getStdin) (← IO.getStdout) (← IO.getStderr)
    return 0
