import DqlScan.File.FileSystem
import DqlScan.Literal.Scan

/-!
# Notices

What a scan tells beside its result: problems that it went past, and literals left open.
-/

namespace DqlScan

inductive Level where
  | debug
  | warning
  deriving DecidableEq

def Level.name : Level → Text
  | .debug => "DEBUG".toList
  | .warning => "WARNING".toList

inductive Notice where
  | unterminated (literal : Literal.Unterminated)
  | unlisted (directory : Path) (fault : AccessFault)
  | unreadRules (file : Path) (fault : ReadFault)
  | unreadFile (file : Text) (fault : Utf8.Fault)

namespace Notice

def level : Notice → Level
  | .unterminated _ => .debug
  | .unlisted .. | .unreadRules .. | .unreadFile .. => .warning

def message : Notice → Text
  | .unterminated literal =>
    "Discarding unterminated literal at offset ".toList ++ Text.ofNat literal.offset ++
      " (".toList ++ literal.state.mode.name ++ ", depth=".toList ++
      Text.ofInt literal.state.depth ++ ")".toList
  | .unlisted directory fault =>
    "Failed to list ".toList ++ directory.text ++ ": ".toList ++ fault.message directory
  | .unreadRules file fault =>
    "Failed to read ".toList ++ file.text ++ ": ".toList ++ fault.message file
  | .unreadFile file fault => "Failed to read ".toList ++ file ++ ": ".toList ++ fault.message

def line (n : Notice) : Text := n.level.name ++ ' ' :: n.message

end Notice

end DqlScan
