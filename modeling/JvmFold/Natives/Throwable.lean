import JvmFold.Natives.Basic

/-!
# Methods of Exceptions

Constructors, message and cause. One set of methods serves all classes of
exceptions, which inherit it.

## Main definitions

* `Natives.throwableMethods`: The methods of all exceptions.
* `Natives.assertionMethods`: The constructor of failed assertions.
-/

namespace JvmFold

namespace Natives

/-- Takes the message and the cause from the call, as far as they are given. -/
def throwableInit : Native := fun args => do
  let this ← receiver args
  if let some message := args[1]? then Emu.setField this Throwable.messageField message
  if let some cause := args[2]? then Emu.setField this Throwable.causeField cause
  void

/-- Takes the cause from the call and makes its text the message. -/
def throwableInitCause : Native := fun args => do
  let this ← receiver args
  let cause ← arg args 1
  let message ←
    if cause = .null then pure Value.null
    else Emu.newString (← Emu.valueText cause (.object "java/lang/Throwable"))
  Emu.setField this Throwable.messageField message
  Emu.setField this Throwable.causeField cause
  void

/-- The value of a field of the receiver, `null` if it was never set. -/
def readField (m : Member) : Native := fun args => do
  return some ((← Emu.field? (← receiver args) m).getD .null)

/-- Gives the exception a cause, once. -/
def setCause : Native := fun args => do
  let this ← receiver args
  let cause ← arg args 1
  if (← Emu.field? this Throwable.causeField).isSome then
    Emu.raise "java/lang/IllegalStateException" (some "Can't overwrite cause")
  else if cause = .ref this then
    Emu.raise "java/lang/IllegalArgumentException" (some "Self-causation not permitted")
  else
    Emu.setField this Throwable.causeField cause
    return some (.ref this)

/-- The class of the exception and its message. -/
def throwableText : Native := fun args => do
  let this ← receiver args
  let name := dotted (← Emu.object this).className
  let message := (← Emu.invoke .virtual
    ⟨"java/lang/Throwable", "getLocalizedMessage", "()Ljava/lang/String;"⟩ [.ref this]).getD .null
  if message = .null then text name
  else
    return some (← Emu.newString (Units.ofString (name ++ ": ") ++ (← Emu.stringUnits message)))

/-- The methods of all exceptions. -/
def throwableMethods : List Builtin :=
  [method "<init>" "()V" throwableInit,
   method "<init>" "(Ljava/lang/String;)V" throwableInit,
   method "<init>" "(Ljava/lang/String;Ljava/lang/Throwable;)V" throwableInit,
   method "<init>" "(Ljava/lang/Throwable;)V" throwableInitCause,
   method "getMessage" "()Ljava/lang/String;" (readField Throwable.messageField),
   method "getLocalizedMessage" "()Ljava/lang/String;" fun args => do
     Emu.invoke .virtual ⟨"java/lang/Throwable", "getMessage", "()Ljava/lang/String;"⟩
       [← arg args 0],
   method "getCause" "()Ljava/lang/Throwable;" (readField Throwable.causeField),
   method "initCause" "(Ljava/lang/Throwable;)Ljava/lang/Throwable;" setCause,
   method "toString" "()Ljava/lang/String;" throwableText,
   method "fillInStackTrace" "()Ljava/lang/Throwable;" fun args => answerArg args 0,
   method "addSuppressed" "(Ljava/lang/Throwable;)V" fun _ => void]

/-- Takes the text of the detail as the message, and an exception as the cause as well. -/
def assertionInit : Native := fun args => do
  let this ← receiver args
  let detail ← arg args 1
  let message ← Emu.newString (← Emu.anyText detail)
  Emu.setField this Throwable.messageField message
  if ← Emu.isInstance detail "java/lang/Throwable" then
    Emu.setField this Throwable.causeField detail
  void

/-- The constructor of failed assertions. -/
def assertionMethods : List Builtin :=
  [method "<init>" "(Ljava/lang/Object;)V" assertionInit]

end Natives

end JvmFold
