import BoxCert.Exchange.Records
import BoxCert.Files.Store
import BoxCert.Gzip.Member
import BoxCert.Onnx.Affine
import BoxCert.Property.Reading

/-!
# Loading files

Models and properties are read from files that may be compressed, settings
from plain ones. The name of a model file says which format it has, and the
name of a property file may end with the label.
-/

namespace BoxCert

/-- The formats of model files. -/
inductive ModelFormat where
  /-- A binary model graph. -/
  | graph
  /-- The rows of the weight as JSON. -/
  | rows
deriving DecidableEq, Repr

def ModelFormat.extension : ModelFormat → String
  | graph => "onnx"
  | rows => "json"

def Path.modelFormat (p : Path) : Checked ModelFormat :=
  let extension := p.contentExtension?.getD []
  if extension = ModelFormat.graph.extension.toList then .ok .graph
  else if extension = ModelFormat.rows.extension.toList then .ok .rows
  else .error (.modelLoad (.unknownFormat (String.ofList extension) p.text))

/-- The name of a model whose file tells none. -/
abbrev defaultModelName : String := "model"

/-- The name that a file gives to a model graph. -/
def Path.graphName (p : Path) : String :=
  p.stem?.elim defaultModelName fun stem =>
    String.ofList (withoutEndings ".onnx".toList stem)

/-- The name that a file gives to a model without one. -/
def Path.rowsName (p : Path) : String :=
  (p.contentName?.bind (withoutEnding? ".json".toList)).elim defaultModelName
    String.ofList

namespace FileView

/-- The content of a file, after decompression. -/
def content (view : FileView) (p : Path) : Except LoadFault (List UInt8) :=
  match view p with
  | .error _ => .error (.noFile p.text)
  | .ok .directory =>
      .error (if p.isCompressed then .badGzip
        else .unreadable p.text .isADirectory)
  | .ok (.file bytes) =>
      if p.isCompressed then
        match Gzip.unpack? bytes with
        | some content => .ok content
        | none => .error .badGzip
      else .ok bytes

def contentText (view : FileView) (p : Path) : Except LoadFault String :=
  match view.content p with
  | .error fault => .error fault
  | .ok bytes =>
      match String.fromUTF8? bytes.toByteArray with
      | some text => .ok text
      | none => .error .badUtf8

def loadModel (view : FileView) (p : Path) : Checked Model := do
  match ← p.modelFormat with
  | .graph =>
      match view.content p with
      | .error fault => throw (.modelLoad fault)
      | .ok bytes => Model.ofGraphBytes bytes p.graphName
  | .rows =>
      match view.contentText p with
      | .error fault => throw (.modelLoad fault)
      | .ok text => RowModel.read text.toList p.rowsName

/-- Loads a property. A label that is given wins over the one in the name of
the file, and that over the one in the text. -/
def loadProperty (view : FileView) (p : Path) (label : Option Nat) :
    Checked Property :=
  match view.contentText p with
  | .error fault => .error (.invalidSpec (.unreadable fault))
  | .ok text => Property.read text.toList (label <|> p.label?)

def loadSettings (view : FileView) (p : Path) : Checked Settings := do
  match view p with
  | .error fault => throw (.io (.access fault))
  | .ok .directory => throw (.io (.access .isADirectory))
  | .ok (.file bytes) =>
      let some text := String.fromUTF8? bytes.toByteArray
        | throw (.io .notText)
      let some settings := (Json.read? text.toList).bind Settings.ofJson?
        | throw (.invalidSpec (.badSettings p.text))
      settings.check
      return settings

end FileView

end BoxCert
