import SqlAssist.Dialect.Config
import SqlAssist.Symbol.Catalog

/-!
A dialect: its settings, the declarations its file lists and the catalog made from them.
-/

namespace SqlAssist

/-- The names a dialect file declares, as listed: a name may stand there more than once. -/
structure Declarations where
  keywords : List Text := []
  dataTypes : List Text := []
  streamOptions : List Text := []
  functions : List SymbolEntry := []
  windowFunctions : List SymbolEntry := []
  deriving Repr, DecidableEq

namespace Declarations

/-- Declares every name in order, role by role. -/
def toCatalog (d : Declarations) : Catalog :=
  let c := d.keywords.foldl Catalog.addKeyword Catalog.empty
  let c := d.dataTypes.foldl Catalog.addDataType c
  let c := d.streamOptions.foldl Catalog.addStreamOption c
  let c := d.functions.foldl Catalog.addFunction c
  d.windowFunctions.foldl Catalog.addWindowFunction c

end Declarations

structure Dialect where
  config : DialectConfig := {}
  declarations : Declarations := {}
  catalog : Catalog := {}
  deriving Repr, DecidableEq

namespace Dialect

def ofDeclarations (config : DialectConfig) (declarations : Declarations) : Dialect :=
  { config, declarations, catalog := declarations.toCatalog }

/-- A dialect around a catalog that was not read from a file, and so lists no declarations. -/
def ofCatalog (config : DialectConfig) (catalog : Catalog) : Dialect :=
  { config, catalog }

end Dialect
end SqlAssist
