import SceneExport.Bytes.Sha256

/-!
# Identifiers

Datablocks and packed media are identified by digests: a datablock by its kind, its name and where
it comes from, a packed file by its content.
-/
namespace SceneExport.Identity

def digest (bytes : Bytes) : String :=
  Bytes.hex (Sha256.digest bytes)

/-- What is added to media of HTML bundles, so that their names differ from those of other
exports. -/
def htmlSalt : Bytes := Bytes.ofText "%html_export%"

/-- The digest that names a packed file. -/
def mediaDigest (bytes : Bytes) (html : Bool) : String :=
  digest (if html then bytes ++ htmlSalt else bytes)

/-- The identifier of a datablock: from its library if it has one, else from the path of the
project. The addition tells variants of one datablock apart. -/
def uuid (kind name : String) (library : Option String) (project addition : String) : String :=
  digest (Bytes.ofText (kind ++ name ++ library.getD project ++ addition))

end SceneExport.Identity
