import Statuary.Rig.Basic
import Statuary.Yaml.Shape

/-!
# Rig documents

A rig can be written by hand as a YAML document. Bones are part of the statue unless they say
otherwise, every field may be left out, and fields that nobody knows are passed over.
-/

namespace Statuary

/-- Why a rig cannot be loaded from a document. -/
inductive RigDocumentError where
  /-- The text cannot be read as a document of the right shape. -/
  | unreadable (f : Yaml.Fault)
  /-- The rig in it is not accepted. -/
  | rejected (e : RigError)
  deriving DecidableEq

namespace RigDocument

open Yaml

/-- Three numbers. Those that say nothing are left out, and zeros fill the end. -/
def vec : Shape Vec3 := fun old n => do
  let xs ← Shape.exactly 3 Shape.number (.zero false) [old.x, old.y, old.z] n
  return xs.map fun xs =>
    let coordinate (i : Nat) : Double := xs.getD i (.zero false)
    ⟨coordinate 0, coordinate 1, coordinate 2⟩

/-- A bone. -/
def bone : Shape Bone :=
  Shape.record [
    .of "name" Shape.text (·.name) fun b s => { b with name := s },
    .of "pos" vec (·.pos) fun b v => { b with pos := v },
    .of "rot" vec (·.rot) fun b v => { b with rot := v },
    .of "exported" (Shape.optional Shape.truth false) (fun b => some b.exported)
      fun b e => { b with exported := e.getD true },
    .of "nbt" Shape.text (·.nbt) fun b s => { b with nbt := s },
    .of "custom_model_data" Shape.whole (·.model) fun b n => { b with model := n }]

/-- The model of a bone in a variant. -/
def model : Shape Int64 :=
  Shape.record [.of "custom_model_data" Shape.whole id fun _ n => n]

/-- A variant. -/
def variant : Shape Variant :=
  Shape.record [
    .of "name" Shape.text (·.name) fun v s => { v with name := s },
    .of "models" (Shape.table model 0) (·.models) fun v ms => { v with models := ms }]

/-- A bone that says nothing. -/
def plainBone : Bone where
  name := ""
  pos := .zero
  rot := .zero
  exported := true
  nbt := ""
  model := 0

/-- A rig. -/
def rig : Shape Rig :=
  Shape.record [
    .of "max_distance" Shape.number (·.maxDistance) fun r x => { r with maxDistance := x },
    .of "bones" (Shape.list bone plainBone) (·.bones) fun r bs => { r with bones := bs },
    .of "variants" (Shape.list variant ⟨"", []⟩) (·.variants) fun r vs => { r with variants := vs },
    .of "touched_models" (Shape.list Shape.text "") (·.touched)
      fun r ts => { r with touched := ts }]

end RigDocument

/-- **Loading a rig from a document.** -/
def Rig.ofDocument (text : String) : Except RigDocumentError Rig :=
  let empty : Rig := { maxDistance := .zero false, bones := [], variants := [], touched := [] }
  match Yaml.readAs RigDocument.rig empty text with
  | .error f => .error (.unreadable f)
  | .ok r => r.normalize.mapError .rejected

end Statuary
