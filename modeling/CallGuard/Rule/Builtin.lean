import CallGuard.Rule.Basic

/-! The rules that are always there. -/
namespace CallGuard.Rule

/-- State is emitted after a gap in which the owner may have been closed. -/
def emitAfterAwait : Rule where
  id := "emit-after-await"
  description := "Emitting state after an asynchronous gap may hit a closed bloc."
  message := "'\x7b0\x7d' may run after the bloc is closed; check '\x7b1\x7d' first."
  correction? := some "Wrap the call in 'if (\x7b1\x7d)'."
  category := .warning
  matcher := ⟨["emit"], .this, .afterSuspension⟩
  guard := .condition [⟨"isClosed", false⟩]

/-- Something is added to a controller that may have been closed. -/
def addToClosedController : Rule where
  id := "add-to-closed-controller"
  description := "Adding to a stream controller or sink that may be closed throws."
  message := "'\x7b0\x7d' on a controller that may be closed; check '\x7b1\x7d' first."
  correction? := some "Wrap the call in 'if (\x7b1\x7d)'."
  category := .warning
  matcher :=
    ⟨["add", "addError", "close"],
      .typed ["StreamController", "Sink", "EventSink", "StreamSink"], .always⟩
  guard := .condition [⟨"isClosed", false⟩, ⟨"isOpen", true⟩]

/-- State is set after a gap in which the widget may have been unmounted. -/
def setStateAfterAwait : Rule where
  id := "set-state-after-await"
  description := "Calling setState after an asynchronous gap may hit an unmounted widget."
  message := "'\x7b0\x7d' may run after the widget is unmounted; check '\x7b1\x7d' first."
  correction? := some "Wrap the call in 'if (\x7b1\x7d)'."
  category := .warning
  matcher := ⟨["setState"], .this, .afterSuspension⟩
  guard := .condition [⟨"mounted", true⟩]

/-- A text stands in a row without a bound on its width. -/
def unconstrainedTextInRow : Rule where
  id := "unconstrained-text-in-row"
  description := "Text placed directly in a Row can overflow its width."
  message := "'\x7b0\x7d' in a Row has no width constraint; wrap it in '\x7b1\x7d'."
  correction? := some "Wrap with '\x7b1\x7d'."
  category := .warning
  matcher := ⟨["Text", "RichText"], .unqualified, .containerSlot ["Row"] "children"⟩
  guard := .wrapper ["Expanded", "Flexible"] "Expanded"

/-- All built-in rules, in the order in which they are shown. -/
def builtin : List Rule :=
  [emitAfterAwait, addToClosedController, setStateAfterAwait, unconstrainedTextInRow]

end CallGuard.Rule
