import RubySource.Config.Basic

/-!
# Layers of configuration

A layer is laid over another key by key.  Where both hold a table, the tables are laid over each
other; anywhere else the upper layer's value replaces what was there.  What the upper layer does not
speak about stays.

## What is here

* `Config.overlay`, `Config.overlayEntries` — a value or the entries of a table laid over others.
* `Config.merge` — a layer laid over a configuration, where both should be tables.
* `Config.valueAt?` — what a configuration holds at a path of keys.
-/

set_option autoImplicit false

namespace RubySource
namespace Config

mutual

/-- What a key holds after a value is laid over what it held. -/
def overlay (old : Option ConfigValue) : ConfigValue → ConfigValue
  | .table upper =>
    match old with
    | some (.table base) => .table (overlayEntries base upper)
    | _ => .table upper
  | v => v

/-- Entries with others laid over them, one after the other. -/
def overlayEntries (base : Entries) : List (LooseText × ConfigValue) → Entries
  | [] => base
  | (key, value) :: rest =>
    overlayEntries (Entries.put key (overlay (Entries.find? base key) value) base) rest

end

/-- Whether a text stands somewhere in another, point by point. -/
def standsIn (word : List LooseText.Point) : List LooseText.Point → Bool
  | [] => word.isEmpty
  | c :: cs => word.isPrefixOf (c :: cs) || standsIn word cs

/-- Why a layer cannot be laid over a value that is no table; `key` is the first key of the
layer. -/
def mergeError (base : ConfigValue) (key : LooseText) : ConfigError :=
  match base with
  | .list _ => .listKey
  | .text s => if standsIn key.points s.points then .textKey else .notAssignable base.typeName
  | v => .notSearchable v.typeName

/-- A layer laid over a configuration. -/
def merge (base upper : ConfigValue) : Except ConfigError ConfigValue :=
  match upper with
  | .table entries =>
    match base, entries with
    | .table baseEntries, _ => .ok (.table (overlayEntries baseEntries entries))
    | v, [] => .ok v
    | v, (key, _) :: _ => .error (mergeError v key)
  | v => .error (.lacks v.typeName "items")

/-- What a value holds at a path of keys. -/
def valueAt? (v : ConfigValue) : List LooseText → Option ConfigValue
  | [] => some v
  | key :: rest =>
    match v with
    | .table entries => (Entries.find? entries key).bind fun next => valueAt? next rest
    | _ => none

end Config
end RubySource
