/-
  The tree of the objects that a connection exports (`dbus-object-tree.c`).

  A pointer to a node is the list of the indexes that lead to it, the last one first, so that
  the pointer to its parent is the tail and `index_in_parent` the head.

  A handler stands for message function, unregister function and user data together.
-/
import DBus.ObjectTree.Path
import DBus.Bus.Message
import DBus.Lib.Search
import Mathlib.Data.List.Lex

namespace DBus

open Outcome Search

/-- `DBusObjectSubtree` -/
inductive Subtree (H : Type) where
  | node (name : List UInt8) (handler : Option H) (invokeAsFallback : Bool)
      (subtrees : List (Subtree H))

/-- `DBusHandlerResult` -/
inductive HandlerResult where
  | handled
  | notYetHandled
  | needMemory
deriving DecidableEq, Repr

/-- `strcmp`, by the values of the bytes -/
def strcmp (a b : List UInt8) : Ordering :=
  if a = b then .eq else if a.map UInt8.toNat < b.map UInt8.toNat then .lt else .gt

namespace Subtree

variable {H : Type}

def name : Subtree H → List UInt8
  | node name _ _ _ => name

def handler : Subtree H → Option H
  | node _ handler _ _ => handler

def invokeAsFallback : Subtree H → Bool
  | node _ _ fallback _ => fallback

def subtrees : Subtree H → List (Subtree H)
  | node _ _ _ subtrees => subtrees

/-- `_dbus_object_subtree_new` -/
def new (name : List UInt8) : Subtree H := node name none false []

def at? (root : Subtree H) : List ℕ → Option (Subtree H)
  | [] => some root
  | i :: parent => (root.at? parent).bind (·.subtrees[i]?)

def onChild (i : ℕ) (f : Subtree H → Subtree H) : Subtree H → Subtree H
  | node name handler fallback subtrees => node name handler fallback (subtrees.modify i f)

/-- The tree after the node behind a pointer was changed. -/
def modify (root : Subtree H) : List ℕ → (Subtree H → Subtree H) → Subtree H
  | [], f => f root
  | i :: parent, f => root.modify parent (onChild i f)

/-- `find_subtree_recurse` on the node behind the pointer `here`: the node afterwards, and the
    pointer that is returned with `exact_match`.  `deepest` stands for `exact_match` not being
    `NULL`. -/
def findSubtreeRecurse (create deepest : Bool) :
    List ℕ → Subtree H → ObjectPath → Subtree H × Option (List ℕ × Bool)
  | here, subtree, [] => (subtree, some (here, true))
  | here, node own handler fallback subtrees, name :: path =>
    match search (fun child => strcmp name child.name) subtrees with
    | .found k =>
      match subtrees[k]? with
      | none => (node own handler fallback subtrees, none)
      | some child =>
        let (child, next) := findSubtreeRecurse create deepest (k :: here) child path
        let subtree := node own handler fallback (subtrees.set k child)
        if next = none ∧ deepest ∧ fallback then (subtree, some (here, false)) else (subtree, next)
    | .missing i =>
      if create then
        let (child, next) := findSubtreeRecurse create deepest (i :: here) (new name) path
        (node own handler fallback (subtrees.insertIdx i child), next)
      else (node own handler fallback subtrees,
        if deepest ∧ fallback then some (here, false) else none)

/-- The fields that `_dbus_object_tree_register` sets. -/
def install (handler : H) (fallback : Bool) : Subtree H → Subtree H
  | node name _ _ subtrees => node name (some handler) fallback subtrees

/-- The fields that `_dbus_object_tree_unregister_and_unlock` clears. -/
def clear : Subtree H → Subtree H
  | node name _ fallback subtrees => node name none fallback subtrees

def dropChild (i : ℕ) : Subtree H → Subtree H
  | node name handler fallback subtrees => node name handler fallback (subtrees.eraseIdx i)

end Subtree

/-! ## Operations -/

section
variable {H : Type}

/-- `_dbus_object_tree_new`: the root -/
def objectTreeNew : Subtree H := .node ['/'.toUInt8] none true []

/-- `DBUS_ERROR_OBJECT_PATH_IN_USE` -/
def objectPathInUse (path : ObjectPath) : DBusError :=
  ⟨.other "org.freedesktop.DBus.Error.ObjectPathInUse",
    asciiBytes "A handler is already registered for " ++ flattenPath path⟩

/-- `_dbus_object_tree_register` -/
def objectTreeRegister (root : Subtree H) (fallback : Bool) (path : ObjectPath) (handler : H) :
    Res (Subtree H × Except DBusError Unit) := do
  match root.findSubtreeRecurse true false [] path with
  | (root, none) => return (root, .error .oom)
  | (root, some (subtree, _)) => do
    let node ← valueOr .outside (root.at? subtree)
    if node.handler.isSome then return (root, .error (objectPathInUse path))
    else return (root.modify subtree (.install handler fallback), .ok ())

/-- `_dbus_object_tree_unregister_and_unlock`: the tree, and the handler whose unregister
    function is called -/
def objectTreeUnregister (root : Subtree H) (path : ObjectPath) : Res (Subtree H × Option H) := do
  match root.findSubtreeRecurse false false [] path with
  | (root, none) => return (root, none)
  | (root, some (subtree, _)) => do
    let node ← valueOr .outside (root.at? subtree)
    match node.handler with
    | none => return (root, none)
    | some handler =>
      let root := root.modify subtree .clear
      match subtree with
      | i :: parent =>
        if node.subtrees = [] then return (root.modify parent (.dropChild i), some handler)
        else return (root, some handler)
      | [] => return (root, some handler)

/-- The loop that goes from a node up to the root and lists the handlers that cover the path. -/
def coveringHandlers (root : Subtree H) : Bool → List ℕ → Res (List H)
  | exact, subtree => do
    let node ← valueOr .outside (root.at? subtree)
    let here := if exact ∨ node.invokeAsFallback then node.handler.toList else []
    match subtree with
    | [] => return here
    | _ :: parent => do
      let above ← coveringHandlers root false parent
      return here ++ above

/-- The list of the handlers for a path, from `find_handler` on. -/
def handlersFor (root : Subtree H) (path : ObjectPath) : Res (List H) :=
  match (root.findSubtreeRecurse false true [] path).2 with
  | none => .ok []
  | some (subtree, exact) => coveringHandlers root exact subtree

/-- The loop that calls the handlers: those that were called, and what the last one answered. -/
def invokeHandlers (answer : H → HandlerResult) : List H → List H × HandlerResult
  | [] => ([], .notYetHandled)
  | handler :: handlers =>
    if answer handler ≠ .notYetHandled then ([handler], answer handler)
    else
      let (called, result) := invokeHandlers answer handlers
      (handler :: called, result)

/-- `_dbus_object_tree_dispatch_and_unlock` for a message with the path `path`, of which
    `isIntrospect` says whether the default handler answers it: the handlers that were called,
    and the result -/
def objectTreeDispatch (root : Subtree H) (answer : H → HandlerResult) (isIntrospect : Bool)
    (path : Option (List UInt8)) : Res (List H × HandlerResult) :=
  match path with
  | none => .ok ([], .notYetHandled)
  | some data => do
    let path ← decomposePath data
    let handlers ← handlersFor root path
    let (called, result) := invokeHandlers answer handlers
    if result = .notYetHandled then
      return (called, if isIntrospect then .handled else .notYetHandled)
    else return (called, result)

/-- What is done to a tree. -/
inductive TreeEvent (H : Type) where
  | register (fallback : Bool) (path : ObjectPath) (handler : H)
  | unregister (path : ObjectPath)

def treeStep (root : Subtree H) : TreeEvent H → Res (Subtree H)
  | .register fallback path handler => do
    return (← objectTreeRegister root fallback path handler).1
  | .unregister path => do return (← objectTreeUnregister root path).1

def treeRun (root : Subtree H) : List (TreeEvent H) → Res (Subtree H)
  | [] => .ok root
  | event :: events => do treeRun (← treeStep root event) events

/-! ## Registries -/

/-- Which handler is registered for a path, and whether as a fallback. -/
abbrev Registry (H : Type) := ObjectPath → Option (H × Bool)

namespace Registry

section
variable (registry : Registry H)

def step : TreeEvent H → Registry H
  | .register fallback path handler =>
    if registry path = none then Function.update registry path (some (handler, fallback))
    else registry
  | .unregister path => Function.update registry path none

def run (events : List (TreeEvent H)) : Registry H :=
  events.foldl step registry

/-- The handler that is registered as a fallback for a path. -/
def fallback (path : ObjectPath) : Option H :=
  (registry path).bind fun r => if r.2 then some r.1 else none

/-- The handlers for a path: the one that is registered there, and the fallbacks of the paths
    above it, the deepest one first. -/
def handlers (path : ObjectPath) : List H :=
  ((registry path).map Prod.fst).toList ++ path.inits.dropLast.reverse.filterMap registry.fallback

end

end Registry

end

end DBus
