import XmrigCC.JsonValues

/-!
# Commands for miners

`ControlCommand` holds one of six commands under the texts of `command_str`. A
text that is none of them reads as START.
-/

namespace XmrigCC.ControlCommands

open ByteText JsonValues

/-- `ControlCommand::Command`. -/
inductive Command where
  /-- Mine. -/
  | START
  /-- Pause mining. -/
  | STOP
  /-- Fetch the configuration. -/
  | UPDATE_CONFIG
  /-- Send the configuration. -/
  | PUBLISH_CONFIG
  /-- Restart the miner. -/
  | RESTART
  /-- End the miner. -/
  | SHUTDOWN
  deriving DecidableEq

/-- The commands in the order of their numbers. -/
def commands : List Command :=
  [.START,.STOP,.UPDATE_CONFIG,.PUBLISH_CONFIG,.RESTART,.SHUTDOWN]

/-- `command_str`, read through `ControlCommand::toString`. -/
def Command.toString : Command → Bytes
  | .START => text "START"
  | .STOP => text "STOP"
  | .UPDATE_CONFIG => text "UPDATE_CONFIG"
  | .PUBLISH_CONFIG => text "PUBLISH_CONFIG"
  | .RESTART => text "RESTART"
  | .SHUTDOWN => text "SHUTDOWN"

/-- `ControlCommand::toCommand`. -/
def toCommand (command : Bytes) : Command :=
  (commands.find? fun c => c.toString=command).getD .START

/-- `ControlCommand`. -/
structure ControlCommand where
  /-- The command held. -/
  m_command : Command
  deriving DecidableEq

/-- `ControlCommand::ControlCommand`. -/
def ControlCommand.new : ControlCommand := ⟨.START⟩

/-- `ControlCommand::isOneTimeCommand`. -/
def ControlCommand.isOneTimeCommand (c : ControlCommand) : Bool :=
  c.m_command=.UPDATE_CONFIG || c.m_command=.PUBLISH_CONFIG || c.m_command=.RESTART ||
    c.m_command=.SHUTDOWN

/-- The one-time commands are these four; START and STOP stay. -/
theorem isOneTimeCommand_iff (c : ControlCommand) : c.isOneTimeCommand=true ↔
    c.m_command=.UPDATE_CONFIG ∨ c.m_command=.PUBLISH_CONFIG ∨ c.m_command=.RESTART ∨
      c.m_command=.SHUTDOWN := by
  obtain ⟨command⟩ := c
  cases command <;> decide

/-- `ControlCommand::toJson`. -/
def ControlCommand.toJson {D : Type} (c : ControlCommand) : Value D :=
  .object [(text "command",.string c.m_command.toString)]

/-- `ControlCommand::parseFromJson`: the command afterwards and the result. -/
def ControlCommand.parseFromJson {D : Type} (lib : Library D) (c : ControlCommand)
    (document : Value D) : Read (ControlCommand×Bool) := do
  if ←hasMember lib document (text "control_command") then
    let controlCommand ← getObject (←member lib document (text "control_command"))
    if ←hasMember lib controlCommand (text "command") then
      let command ← getString lib (←member lib controlCommand (text "command"))
      return (⟨toCommand command⟩,true)
    else return (c,false)
  else return (c,false)

/-- A document whose member control_command.command is a string with this text. -/
def Commands {D : Type} (document : Value D) (command : Bytes) : Prop :=
  ∃ members controlCommand value, document=.object members ∧
    find members (text "control_command")=some (.object controlCommand) ∧
    find controlCommand (text "command")=some (.string value) ∧ cStr value=command

/-- Every command is found under its own text. -/
@[simp] theorem toCommand_toString (c : Command) : toCommand c.toString=c := by
  cases c <;> decide

/-- The text of such a document is the command read, and nothing is read amiss. -/
theorem parseFromJson_commands {D : Type} (lib : Library D) (c : ControlCommand)
    {document : Value D} {command : Bytes} (h : Commands document command) :
    c.parseFromJson lib document=⟨(⟨toCommand command⟩,true),true⟩ := by
  obtain ⟨members,controlCommand,value,rfl,hobject,hstring,rfl⟩ := h
  ext
  all_goals simp [ControlCommand.parseFromJson,hobject,hstring]

end XmrigCC.ControlCommands
