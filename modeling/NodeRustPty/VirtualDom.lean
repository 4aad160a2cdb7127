import Mathlib

/-! The virtual DOM of `virtual_dom/mod.rs`: text nodes and elements with
props, styles and children. Maps are extensional, so structural equality of two
trees is the derived `PartialEq` of the source. -/
namespace NodeRustPty
namespace VirtualDom

abbrev Props := Std.ExtTreeMap String String

abbrev Styles := Std.ExtTreeMap String String

/-- `VElement`, over the type of its children. -/
structure VElement (Node : Type) where
  tag : String
  props : Props
  styles : Styles
  children : List Node

/-- `VNode`, either a text or an element. -/
inductive VNode
  | text (content : String)
  | element (elem : VElement VNode)

mutual
def VNode.decEq : (a b : VNode) → Decidable (a = b)
  | .text s, .text t => decidable_of_iff (s = t) (by simp)
  | .element ⟨tag,props,styles,children⟩, .element ⟨tag',props',styles',children'⟩ =>
    have : Decidable (children = children') := decEqChildren children children'
    decidable_of_iff (tag = tag' ∧ props = props' ∧ styles = styles' ∧ children = children')
      (by simp)
  | .text _, .element _ => .isFalse (by simp)
  | .element _, .text _ => .isFalse (by simp)
def decEqChildren : (as bs : List VNode) → Decidable (as = bs)
  | [], [] => .isTrue rfl
  | a::as, b::bs =>
    have : Decidable (a = b) := VNode.decEq a b
    have : Decidable (as = bs) := decEqChildren as bs
    decidable_of_iff (a = b ∧ as = bs) (by simp)
  | [], _::_ => .isFalse (by simp)
  | _::_, [] => .isFalse (by simp)
end

instance : DecidableEq VNode := VNode.decEq

mutual
/-- Number of nodes of a tree. -/
def VNode.size : VNode → ℕ
  | .text _ => 1
  | .element ⟨_,_,_,children⟩ => sizeChildren children+1
/-- Number of nodes of a row of children. -/
def sizeChildren : List VNode → ℕ
  | [] => 0
  | child::children => child.size+sizeChildren children
end

/-- Nodes strictly below the root. -/
def VNode.descendants : VNode → ℕ
  | .text _ => 0
  | .element elem => sizeChildren elem.children

theorem VNode.size_eq (node : VNode) : node.size = node.descendants+1 := by
  cases node with
  | text content => rfl
  | element elem => rfl

@[simp] theorem sizeChildren_nil : sizeChildren [] = 0 := rfl

@[simp] theorem sizeChildren_cons (child : VNode) (children : List VNode) :
    sizeChildren (child::children) = child.size+sizeChildren children := rfl

@[simp] theorem sizeChildren_append (as bs : List VNode) :
    sizeChildren (as++bs) = sizeChildren as+sizeChildren bs := by
  induction as with
  | nil => simp
  | cons a as ih => simp [ih,Nat.add_assoc]

theorem sizeChildren_eraseIdx_le (children : List VNode) (i : ℕ) :
    sizeChildren (children.eraseIdx i) ≤ sizeChildren children := by
  induction children generalizing i with
  | nil => simp
  | cons child children ih =>
    cases i with
    | zero => simp
    | succ i => simpa using ih i

end VirtualDom
end NodeRustPty
