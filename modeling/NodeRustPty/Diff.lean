import NodeRustPty.VirtualDom
import NodeRustPty.HashOrder

/-! `virtual_dom/diff.rs`: the patch list that turns one tree into another.
A patch carries no path, so the lists of nested children are concatenated. -/
namespace NodeRustPty
namespace VirtualDom

open Std

inductive Patch
  | replace (node : VNode)
  | updateProps (props : Props)
  | appendChild (node : VNode)
  | removeChild (index : ℕ)
  | updateText (text : String)
  | none
  deriving DecidableEq

/-- The entries to write: changed or new ones with their new value, removed ones
with the empty string. Each loop of the source inserts one entry for each key. -/
def diffProps (oldProps newProps : Props) : Props :=
  let changed := newProps.filterMap fun key newValue =>
    match oldProps[key]? with
    | some oldValue => if oldValue ≠ newValue then some newValue else none
    | none => some newValue
  let removed := oldProps.filterMap fun key _ => if key ∈ newProps then none else some ""
  changed ∪ removed

/-- The two tails of `diff_children`: what remains of the new children is appended,
what remains of the old ones is removed from right to left. -/
def diffTail (i : ℕ) (oldRest newRest : List VNode) : List Patch :=
  newRest.map .appendChild ++ ((List.range' i oldRest.length).reverse.map .removeChild)

/-- Remove any `None` patches unless it is the only patch. -/
def dropNone (patches : List Patch) : List Patch :=
  if patches.length > 1 then patches.filter (· ≠ .none) else patches

mutual
def diff (old new : VNode) : List Patch :=
  if old = new then [.none]
  else dropNone (match old, new with
    | .text oldText, .text newText => if oldText ≠ newText then [.updateText newText] else []
    | .element ⟨oldTag,oldProps,oldStyles,oldChildren⟩,
      .element ⟨newTag,newProps,newStyles,newChildren⟩ =>
      if oldTag ≠ newTag then [.replace (.element ⟨newTag,newProps,newStyles,newChildren⟩)]
      else
        let propPatches := diffProps oldProps newProps
        let stylePatches := diffProps oldStyles newStyles
        (if propPatches.isEmpty then [] else [.updateProps propPatches]) ++
          (if stylePatches.isEmpty then [] else [.updateProps stylePatches]) ++
          diffChildren 0 oldChildren newChildren
    | .text _, .element elem => [.replace (.element elem)]
    | .element _, .text text => [.replace (.text text)])
/-- `diff_children` from index `i` on, the index that both rows have reached. -/
def diffChildren (i : ℕ) : (oldChildren newChildren : List VNode) → List Patch
  | old::oldRest, new::newRest =>
    (if old ≠ new then diff old new else []) ++ diffChildren (i+1) oldRest newRest
  | [], newRest => diffTail i [] newRest
  | oldRest, [] => diffTail i oldRest []
end

end VirtualDom
end NodeRustPty
