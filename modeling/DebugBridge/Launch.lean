import DebugBridge.Failure
import DebugBridge.Toml.Document

/-!
# Launch options

How a debug session behaves, fixed when it is created. The options are read from a TOML document;
one that is missing is off, and other keys do not matter.

## Main definitions

* `LaunchOptions`;
* `LaunchOptions.ofToml`, `LaunchOptions.ofFile`.
-/

namespace DebugBridge

/-- The options of a debug session. -/
structure LaunchOptions where
  /-- Stop at the first line of the root script. -/
  suspendOnStartup : Bool
  /-- Stop at the first line of every script that is loaded. -/
  suspendOnScriptLoad : Bool
  /-- Show generated code. -/
  showDynamicCode : Bool
deriving DecidableEq, Repr

namespace LaunchOptions

/-- All options off. -/
def off : LaunchOptions := ⟨false, false, false⟩

instance : Inhabited LaunchOptions := ⟨off⟩

/-- The truth value of an option. -/
def flag (entries : Toml.Entries) (key : String) : Except Failure Bool :=
  match entries.find? key with
  | none => .ok false
  | some (.boolean b) => .ok b
  | some _ => .error .badOptions

/-- Reads the options from the text of a document. -/
def ofToml (text : String) : Except Failure LaunchOptions :=
  match Toml.parse? text with
  | none => .error .badOptions
  | some entries => do
    let suspendOnStartup ← flag entries "suspend-on-startup"
    let suspendOnScriptLoad ← flag entries "suspend-on-script-load"
    let showDynamicCode ← flag entries "show-dynamic-code"
    return { suspendOnStartup, suspendOnScriptLoad, showDynamicCode }

/-- Reads the options from the bytes of a file, or from no file at all. -/
def ofFile (bytes : Option ByteArray) : Except Failure LaunchOptions :=
  match bytes.bind String.fromUTF8? with
  | none => .error .unreadable
  | some text => ofToml text

end LaunchOptions

end DebugBridge
