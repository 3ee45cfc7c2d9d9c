import Ct.Lib.CString
import Ct.Lib.Fault

set_option autoImplicit false

namespace Ct.Ccutils.Xml

open Ct.Lib

/-- An element with its attributes. -/
structure XmlElement where
  name : CString
  attributes : List (CString × CString)

/-- A document: the name of its root element and the children of that element, in document order. -/
structure XmlDoc where
  root : CString
  children : List XmlElement

/-- `xmlGetProp` -/
def xmlGetProp (node : XmlElement) (name : CString) : Option CString :=
  (node.attributes.find? (·.1 == name)).map (·.2)

/-- The elements that the path `/root/name` selects. -/
def selected (doc : XmlDoc) (name : CString) : List XmlElement :=
  if doc.root == "root".toList then doc.children.filter (·.name == name) else []

/-- `get_xpath_object` for the path `/root/name`: null stands for an empty node set. The
evaluation itself succeeds. -/
def getXpathObject (doc : XmlDoc) (name : CString) : Option (List XmlElement) :=
  if (selected doc name).isEmpty then none else some (selected doc name)

/-- `strcpy` into an array of this size. -/
def strcpyTo (size : Nat) (src : CString) : Except Fault CString :=
  if src.length < size then .ok src else .error .outOfBounds

/-- `cxml_get_prop_string`, which returns `dest` in every case. -/
def cxmlGetPropString (node : XmlElement) (name : CString) (defaultValue : Option CString)
    (size : Nat) : Except Fault CString :=
  match xmlGetProp node name with
  | some prop => strcpyTo size prop
  | none =>
    match defaultValue with
    | some value => strcpyTo size value
    | none => .ok []

/-- `cxml_get_prop_bool` -/
def cxmlGetPropBool (node : XmlElement) (name : CString) (defaultValue : Int) : Int :=
  match xmlGetProp node name with
  | some prop => if prop == "true".toList then 1 else 0
  | none => defaultValue

/-- `cxml_get_prop_integer` -/
def cxmlGetPropInteger {ι : Type} (atoi : CString → ι) (node : XmlElement) (name : CString)
    (defaultValue : ι) : ι :=
  match xmlGetProp node name with
  | some prop => atoi prop
  | none => defaultValue

/-- The text that `cxml_get_prop_string` delivers. -/
def propText (node : XmlElement) (name : CString) (defaultValue : Option CString) : CString :=
  ((xmlGetProp node name).or defaultValue).getD []

theorem cxmlGetPropString_fits {node : XmlElement} {name : CString} {defaultValue : Option CString}
    {size : Nat} (fits : (propText node name defaultValue).length < size) :
    cxmlGetPropString node name defaultValue size = .ok (propText node name defaultValue) := by
  unfold propText at fits ⊢
  unfold cxmlGetPropString
  cases stored : xmlGetProp node name with
  | some prop =>
    rw [stored] at fits
    exact if_pos fits
  | none =>
    rw [stored] at fits
    cases defaultValue with
    | some value => exact if_pos fits
    | none => rfl

theorem fits_of_cxmlGetPropString {node : XmlElement} {name : CString}
    {defaultValue : Option CString} {size : Nat} (room : 0 < size) {text : CString}
    (copied : cxmlGetPropString node name defaultValue size = .ok text) :
    (propText node name defaultValue).length < size := by
  apply Classical.byContradiction
  intro long
  unfold cxmlGetPropString at copied
  unfold propText at long
  cases stored : xmlGetProp node name with
  | some prop =>
    simp only [stored, Option.some_or, Option.getD_some] at copied long
    simp [strcpyTo, long] at copied
  | none =>
    rw [stored] at copied long
    cases defaultValue with
    | some value =>
      simp only [Option.none_or, Option.getD_some] at copied long
      simp [strcpyTo, long] at copied
    | none => exact long room

end Ct.Ccutils.Xml
