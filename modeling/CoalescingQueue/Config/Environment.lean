import CoalescingQueue.Text.Utf8

/-!
# Environments

The variables a process is started with. A value is a row of bytes, and one that is no text
counts as absent wherever a text is asked for.
-/
namespace CoalescingQueue

/-- Variables with their values; the first entry of a name counts. -/
abbrev Environment := List (String × List UInt8)

namespace Environment

def bytes? (env : Environment) (name : String) : Option (List UInt8) := List.lookup name env

def text? (env : Environment) (name : String) : Option String :=
  (env.bytes? name).bind Text.text?

def set (env : Environment) (name : String) (value : List UInt8) : Environment :=
  (name, value) :: env

end Environment

end CoalescingQueue
