/-
Loaders by extension, and their interception.

A host keeps one loader for each extension. `HookManager.install` puts others in their place and
keeps those that were there, so that `restoreAll` can put them back: a displaced loader returns, and
an extension that had none has none again. Installing restores first, so what is kept is always
the host's own.

An interceptor is made of the extension and of a loader to pass files on to: the one it displaces,
or the host's loader for `.js`, or one that hands over the file as it is. Nothing here depends on
what a loader is.
-/
import TransformCache.Error
import TransformCache.Keyed
import TransformCache.Text.Quoted

namespace TransformCache

-- ====================================================== the host's table

/-- The loaders of a host, by extension. -/
abbrev ExtensionTable (L : Type) := Keyed L

namespace ExtensionTable

variable {L : Type}

/-- Sets the loader of an extension, or takes it away. -/
def putBack (t : ExtensionTable L) (extension : String) (loader : Option L) : ExtensionTable L :=
  match loader with
  | some l => t.insert extension l
  | none => t.erase extension

/-- The extension that a file is loaded by, with its point; empty if it has none. -/
def extensionOf (path : FilePath) : String :=
  match path.extension? with
  | some e => "." ++ e
  | none => ""

def loaderFor (t : ExtensionTable L) (path : FilePath) : Except Error L :=
  match t.get? (extensionOf path) with
  | some l => .ok l
  | none => .error (.load (.noLoader (extensionOf path) path))

/-- The extensions, as they are shown to people who look for faults. -/
def describe (t : ExtensionTable L) : String :=
  "\x7b" ++ ", ".intercalate (t.keys.map Text.quoted) ++ "\x7d"

end ExtensionTable

-- ====================================================== interception

/-- The extensions under interception, each with the loader it displaced. -/
structure HookManager (L : Type) where
  prior : Keyed (Option L) := ∅

namespace HookManager

variable {L : Type}

/-- The extension whose loader serves those that had none. -/
def fallbackExtension : String := ".js"

/-- The extensions under interception. -/
def hooked (h : HookManager L) : List String := h.prior.keys

def isHooked (h : HookManager L) (extension : String) : Bool := h.prior.contains extension

/-- The host's own loader for `.js`, also while it is displaced. -/
def fallback (h : HookManager L) (t : ExtensionTable L) : Option L :=
  match h.prior.get? fallbackExtension with
  | some displaced => displaced
  | none => t.get? fallbackExtension

/-- Puts every displaced loader back. -/
def restoreAll (h : HookManager L) (t : ExtensionTable L) : HookManager L × ExtensionTable L :=
  ({}, h.prior.members.foldl (fun t m => ExtensionTable.putBack t m.1 m.2) t)

/-- Intercepts one extension, unless it is already. -/
def hook (make : String → L → L) (unchanged : L) (state : HookManager L × ExtensionTable L)
    (extension : String) : HookManager L × ExtensionTable L :=
  let (h, t) := state
  if h.isHooked extension then (h, t)
  else
    let previous := t.get? extension
    let delegate := (previous <|> h.fallback t).getD unchanged
    (⟨h.prior.insert extension previous⟩, t.insert extension (make extension delegate))

/-- Puts every displaced loader back, and then intercepts exactly the given extensions. -/
def install (h : HookManager L) (t : ExtensionTable L) (make : String → L → L) (unchanged : L)
    (extensions : List String) : HookManager L × ExtensionTable L :=
  extensions.foldl (hook make unchanged) (h.restoreAll t)

end HookManager

/-- A file's code, handed over as it is: the text given in place of the file, or the file's own. -/
def unchangedCode (fs : FileSystem) (path : FilePath) (inline : Option String) :
    Except Error String :=
  match inline with
  | some text => .ok text
  | none =>
    match fs.readText path with
    | .ok text => .ok text
    | .error reason => .error (.file (.noContents path reason))

end TransformCache
