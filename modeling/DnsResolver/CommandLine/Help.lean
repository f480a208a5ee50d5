import DnsResolver.CommandLine.Parse

/-!
# What the program says about its command line
-/

namespace DnsResolver
namespace CommandLine

/-- The name and version of the program. -/
def versionText : String := "dns-recursor 0.1.0"

/-- The parameters of the program, each with what is said about it. -/
def explanations : List (String × List String) :=
  [("-l, --listen <LISTEN>", ["Address to listen on for client queries", "[default: 0.0.0.0]"]),
    ("-p, --port <PORT>", ["UDP port to listen on", "[default: 53]"]),
    ("    --cache-capacity <CACHE_CAPACITY>",
      ["Maximum number of cached record sets", "[default: 4096]"]),
    ("    --upstream-timeout-ms <UPSTREAM_TIMEOUT_MS>",
      ["How long to wait for a reply from an upstream server, in milliseconds",
        "[default: 2000]"]),
    ("    --max-depth <MAX_DEPTH>",
      ["Deepest CNAME nesting that is still resolved", "[default: 10]"]),
    ("    --root-server <IP>",
      ["Root server to start resolution at, may be repeated. Defaults to the IANA root servers"]),
    ("    --follow-referrals",
      ["Continue at the servers of a referral instead of skipping replies without answers"]),
    ("    --log-level <LOG_LEVEL>",
      ["[default: info]", "[possible values: error, warn, info, debug, trace]"]),
    ("    --log-target <LOG_TARGET>",
      ["Where log lines go. `systemd` prefixes every line with its syslog priority",
        "Possible values:",
        "- console: Human readable lines with timestamps",
        "- systemd: One line per event, prefixed with the syslog priority as understood by " ++
          "journald",
        "[default: console]"]),
    ("-h, --help", ["Print help"]),
    ("-V, --version", ["Print version"])]

/-- What the program is, and what its parameters mean. -/
def helpText : String :=
  let options := explanations.flatMap fun (parameter, lines) =>
    ("  " ++ parameter) :: lines.map fun line => "          " ++ line
  "\n".intercalate
    (["A small recursive DNS resolver with a TTL aware cache",
      "",
      "Usage: dns-recursor [OPTIONS]",
      "",
      "Options:"] ++ options)

namespace UsageError

/-- What is reported about a command line that gives no settings. -/
def message : UsageError → String
  | unknownArgument => "error: unexpected argument found"
  | argumentConflict => "error: an argument is given more than once"
  | invalidValue => "error: a value is missing or is not one of the possible values"
  | valueValidation => "error: a value cannot be read"
  | tooManyValues => "error: a value is given to an argument that takes none"
  | displayHelp => helpText
  | displayVersion => versionText

/-- Whether the command line asked for a text and is in order. -/
def isRequest : UsageError → Bool
  | displayHelp | displayVersion => true
  | _ => false

end UsageError
end CommandLine
end DnsResolver
