import TouchPanel.Identifier
import TouchPanel.Output.Node
import TouchPanel.Table

/-!
# Locks

A lock keeps an inbound update away from a widget for a while after the widget has
made an outbound call about the same entity. It is a global of the device that
holds the time at which it ends; the writer and the reader of a lock derive its name
here.
-/

namespace TouchPanel.Lock

/-- The lock of an entity and the widget with an output id. -/
def name (entity widgetId : String) : String :=
  "etd_lock_" ++ Identifier.slug entity ++ "__" ++ widgetId

/-- The statement that takes a lock for `window` milliseconds. -/
def writer (window : Nat) (lock : String) : Node :=
  .single "lambda" (.raw s!"id({lock}) = millis() + {window};")

/-- Runs the actions only if the lock has ended. -/
def guarded (lock : String) (actions : List Node) : Node :=
  .single "if" (.map [
    ("condition", .single "lambda" (.raw s!"return millis() > id({lock});")),
    ("then", .list actions)])

def global (lock : String) : Node :=
  .map [("id", .ident lock), ("type", .ident "uint32_t"), ("restore_value", .ident "no"),
    ("initial_value", .raw "'0'")]

/-- The declarations of the locks, each once, in the order of their names. -/
def globals (locks : List String) : List Node :=
  (Table.ofList (locks.map (·, ()))).keys.map global

end TouchPanel.Lock
