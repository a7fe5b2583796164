import InlineArrays.Member

/-!
# Options

What to compile for: the well-known members that are missing, whether to run, and where to start.
-/

namespace InlineArrays

structure Options where
  /-- By either name of a member. -/
  missingMembers : List String := []
  run : Bool := false
  entry : Option String := none
  deriving DecidableEq, Repr

namespace Options

def defaultEntry : String := "Main"

/-- The method that a run starts in. -/
def start (o : Options) : String := o.entry.getD defaultEntry

/-- Adds members to the missing ones, each once. -/
def withMissing (o : Options) (members : List String) : Options :=
  { o with
    missingMembers := members.foldl
      (fun missing m ↦ if missing.contains m then missing else missing ++ [m]) o.missingMembers }

/-- The options with what a caller adds: more missing members, a run, another start. -/
def override (o : Options) (missing : List String) (run : Bool) (entry : Option String) :
    Options :=
  let o := o.withMissing missing
  { o with run := o.run || run, entry := entry.or o.entry }

def members (o : Options) : Except UnknownMember MemberTable :=
  MemberTable.ofMissing o.missingMembers

end Options

end InlineArrays
