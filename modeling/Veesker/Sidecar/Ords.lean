/-
  File:      Veesker/Sidecar/Ords.lean
  Subject:   THE ORDS GENERATOR: the PL/SQL block of a REST endpoint (sidecar/src/ords.ts).

  `ordsGenerateSql` checks the endpoint's configuration and writes the block that `ordsApply`
  executes. Names are checked against one character class (`validateOrdsName`), strings are quoted
  (`sqlString`), the endpoint's own source goes into a q-quoted literal (`sqlMultiline`). Every
  block ends in `COMMIT; END;`.

  A configuration is untyped in the source: a field that is absent, or of another type than the
  generator can use, is `none` here.
-/
import Veesker.Text.Upper
import Veesker.Text.Pattern

namespace Veesker.Sidecar

/-! ## 1. Errors and answers -/

/-- What the driver throws. -/
structure OracleError where
  errorNum : Option Nat
  message : Text
  deriving DecidableEq

inductive CallError where
  /-- an error with a code of the sidecar's own -/
  | coded (code : Int) (message : Text)
  /-- `Error("Invalid Oracle identifier: …")`, with the name -/
  | invalidIdentifier (name : Text)
  | oracle (e : OracleError)
  deriving DecidableEq

/-- A row of a result: its columns, `null` as `none`. -/
abbrev Row := List (Option Text)

/-- What the driver answers. -/
abbrev Answer := Except OracleError (List Row)

/-- `ProcParam`, but for the position. -/
structure ProcParam where
  name : Text
  direction : Text
  dataType : Text
  deriving DecidableEq

/-- A row of `ALL_ARGUMENTS`. -/
def procParam (row : Row) : ProcParam where
  name := (row[0]?.join).getD "RETURN".toList
  direction := (row[1]?.join).getD "IN".toList
  dataType := (row[2]?.join).getD "VARCHAR2".toList

/-! ## 2. Names and literals -/

/-- The length JavaScript reports: a character outside the basic plane counts twice. -/
def utf16Length (s : Text) : Nat := (s.map fun c => if 0xFFFF < c.toNat then 2 else 1).sum

/-- `/[A-Za-z0-9_$#\-./]/`. -/
def isOrdsChar (c : Char) : Bool :=
  isWordChar c || c == '$' || c == '#' || c == '-' || c == '.' || c == '/'

def invalidParams (message : Text) : CallError := .coded (-32602) message

/-- `validateOrdsName`; what is no string is `none`. -/
def validateOrdsName (kind : Text) (s : Option Text) : Except CallError Text :=
  match s with
  | none => .error (invalidParams ("ORDS ".toList ++ kind ++ " is required".toList))
  | some s =>
    if s = [] then .error (invalidParams ("ORDS ".toList ++ kind ++ " is required".toList))
    else if 128 < utf16Length s then
      .error (invalidParams ("ORDS ".toList ++ kind ++ " too long (max 128 chars)".toList))
    else if s.all isOrdsChar then .ok s
    else .error (invalidParams ("ORDS ".toList ++ kind ++
      " contains illegal characters (allowed: A-Z 0-9 _ $ # - . /)".toList))

/-- `/[\x00-\x1f\x7f]/`. -/
def isControlChar (c : Char) : Bool := decide (c.toNat < 32) || c.toNat == 127

/-- Every quote doubled. -/
def doubleQuotes (s : Text) : Text := s.flatMap fun c => if c = '\'' then ['\'', '\''] else [c]

def sqlString (s : Text) : Except CallError Text :=
  if s.any isControlChar then
    .error (invalidParams "ORDS string contains illegal control characters".toList)
  else .ok ('\'' :: (doubleQuotes s ++ ['\'']))

/-- `s.includes(w)`. -/
def includes (s w : Text) : Bool := s.tails.any fun t => startsWith t w

/-- The first pair of brackets whose closing one does not stand before a quote in the text. -/
def qQuoted (s : Text) : Option Text :=
  ([('[', ']'), ('\x7b', '\x7d'), ('(', ')'), ('<', '>')].find? fun p => !includes s [p.2, '\'']).map
    fun p => 'q' :: '\'' :: p.1 :: (s ++ [p.2, '\''])

def sqlMultiline (s : Text) : Except CallError Text :=
  if s.any (·.toNat == 0) then
    .error (invalidParams "ORDS source body contains NUL byte".toList)
  else match qQuoted s with
    | some q => .ok q
    | none => sqlString s

inductive AuthMode where
  | none_ | role (authRole : Text) | oauth
  deriving DecidableEq

/-! ## 3. Configurations -/

structure SourceObject where
  owner : Option Text := none
  name : Option Text := none
  kind : Option Text := none
  deriving DecidableEq

/-- The parameters of `ords.generate_sql` and `ords.apply`. -/
structure OrdsParams where
  type : Option Text := none
  authMode : Option Text := none
  authConfirmedNone : Bool := false
  authRole : Option Text := none
  sourceObject : Option SourceObject := none
  moduleName : Option Text := none
  basePath : Option Text := none
  routePattern : Option Text := none
  method : Option Text := none
  sourceSql : Option Text := none
  deriving DecidableEq

/-- `normalizeAuth`: an endpoint without authentication has to be confirmed. -/
def normalizeAuth (params : OrdsParams) : Except CallError AuthMode :=
  if params.authMode = some "none".toList then
    if params.authConfirmedNone then .ok .none_
    else .error (invalidParams ("Refusing to publish unauthenticated ORDS endpoint without explicit ".toList ++
      "confirmation. Pass authConfirmedNone:true to override.".toList))
  else if params.authMode = some "role".toList then
    (validateOrdsName "authRole".toList params.authRole).map .role
  else .ok .oauth

/-! ## 4. The generators -/

/-- A named argument, with what comes behind it. -/
def arg (name value after : Text) : Text := "    ".toList ++ name ++ " => ".toList ++ value ++ after

/-- The block that grants a role the endpoint's patterns; empty where no role is asked for. -/
def privilegeLines (auth : AuthMode) (name pattern : Text) : Except CallError (List Text) := do
  match auth with
  | .role authRole =>
    if authRole = [] then return []
    let qName ← sqlString (name ++ "_priv".toList)
    let qRole ← sqlString authRole
    let qPattern ← sqlString pattern
    return [[], "  ORDS.DEFINE_PRIVILEGE(".toList, arg "p_privilege_name".toList qName ",".toList,
      arg "p_roles         ".toList ("ORDS_TYPES.role_array(".toList ++ qRole ++ ")".toList) ",".toList,
      arg "p_patterns      ".toList ("ORDS_TYPES.pattern_array(".toList ++ qPattern ++ ")".toList)
        ");".toList]
  | _ => return []

/-- `basePath.replace(/\/$/, "") + "/*"`. -/
def underBasePath (basePath : Text) : Text :=
  (if basePath.getLast? = some '/' then basePath.dropLast else basePath) ++ "/*".toList

def closingLines : List Text := [[], "  COMMIT;".toList, "END;".toList]

def generateAutoCrudSql (schema objectName objectType objectAlias : Text) (auth : AuthMode) :
    Except CallError Text := do
  let qSchema ← sqlString schema
  let qObject ← sqlString objectName
  let qType ← sqlString objectType
  let qAlias ← sqlString objectAlias
  let privilege ← privilegeLines auth objectAlias ('/' :: (objectAlias ++ "/*".toList))
  return joinLines (["BEGIN".toList, "  ORDS.ENABLE_OBJECT(".toList,
    arg "p_enabled       ".toList "TRUE".toList ",".toList,
    arg "p_schema        ".toList qSchema ",".toList,
    arg "p_object        ".toList qObject ",".toList,
    arg "p_object_type   ".toList qType ",".toList,
    arg "p_object_alias  ".toList qAlias ",".toList,
    arg "p_auto_rest_auth".toList (if auth = .none_ then "FALSE".toList else "TRUE".toList) ");".toList]
    ++ privilege ++ closingLines)

/-- The module and its template; `items` is what the module's last argument is followed by. -/
def moduleLines (qModule qBase qRoute : Text) (items : List Text) : List Text :=
  ["  ORDS.DEFINE_MODULE(".toList, arg "p_module_name   ".toList qModule ",".toList] ++
    (match items with
      | [] => [arg "p_base_path     ".toList qBase ");".toList]
      | items => arg "p_base_path     ".toList qBase ",".toList :: items) ++
    [[], "  ORDS.DEFINE_TEMPLATE(".toList, arg "p_module_name".toList qModule ",".toList,
      arg "p_pattern    ".toList qRoute ");".toList, []]

def handlerLines (qModule qRoute qMethod sourceType source : Text) : List Text :=
  ["  ORDS.DEFINE_HANDLER(".toList, arg "p_module_name".toList qModule ",".toList,
    arg "p_pattern    ".toList qRoute ",".toList, arg "p_method     ".toList qMethod ",".toList,
    arg "p_source_type".toList sourceType ",".toList,
    arg "p_source     ".toList source ");".toList]

def generateCustomSqlEndpoint (moduleName basePath routePattern method source : Text)
    (auth : AuthMode) : Except CallError Text := do
  let qModule ← sqlString moduleName
  let qBase ← sqlString basePath
  let qRoute ← sqlString routePattern
  let qMethod ← sqlString (toUpperCase method)
  let body ← sqlMultiline source
  let privilege ← privilegeLines auth moduleName (underBasePath basePath)
  let sourceType := if toUpperCase method = "GET".toList then "ORDS.source_type_collection".toList
    else "ORDS.source_type_plsql".toList
  return joinLines (["BEGIN".toList] ++
    moduleLines qModule qBase qRoute ["    p_items_per_page => 25);".toList] ++
    handlerLines qModule qRoute qMethod sourceType body ++ privilege ++ closingLines)

def normalizePlsqlType (dt : Text) : Text :=
  let t := trim (toUpperCase dt)
  if ["REF CURSOR".toList, "PL/SQL CURSOR".toList, "CURSOR".toList].contains t then
    "SYS_REFCURSOR".toList
  else if ["VARCHAR2".toList, "VARCHAR".toList, "CHAR".toList, "NVARCHAR2".toList].contains t then
    t ++ "(4000)".toList
  else t

/-- The parameters' names are checked to be ASCII before they get here. -/
def toLowerCase (s : Text) : Text := s.map Char.toLower

/-- The arguments of the wrapped call. -/
def procedureArg (p : ProcParam) : Text :=
  "    ".toList ++ p.name ++ " => ".toList ++
    (if p.direction = "OUT".toList ∨ p.direction = "IN/OUT".toList then "v_".toList else ":".toList) ++
    toLowerCase p.name

/-- The block that calls the procedure and prints what it returns. -/
def procedureWrapper (fqn : Text) (params : List ProcParam) (hasReturn : Bool) : Text :=
  let outParams := params.filter fun p => p.direction = "OUT".toList ∨ p.direction = "IN/OUT".toList
  joinLines (["DECLARE".toList] ++
    outParams.map (fun p => "  v_".toList ++ toLowerCase p.name ++ " ".toList ++
      normalizePlsqlType p.dataType ++ ";".toList) ++
    (if hasReturn then ["  v_result NUMBER;".toList] else []) ++
    ["BEGIN".toList, "  ".toList ++ fqn ++ "(".toList,
      List.intercalate ",\n".toList (params.map procedureArg), "  );".toList,
      "  :status_code := 200;".toList, "  OWA_UTIL.mime_header('application/json', false);".toList,
      "  OWA_UTIL.http_header_close;".toList, "  APEX_JSON.open_object;".toList] ++
    outParams.map (fun p => "  APEX_JSON.write('".toList ++ toLowerCase p.name ++ "', v_".toList ++
      toLowerCase p.name ++ ");".toList) ++
    ["  APEX_JSON.close_object;".toList, "END;".toList])

def generateProcedureEndpoint (moduleName basePath routePattern method procName : Text)
    (packageName : Option Text) (params : List ProcParam) (hasReturn : Bool) (auth : AuthMode) :
    Except CallError Text := do
  let qModule ← sqlString moduleName
  let qBase ← sqlString basePath
  let qRoute ← sqlString routePattern
  let qMethod ← sqlString (toUpperCase method)
  let fqn := (packageName.map (· ++ ".".toList)).getD [] ++ procName
  let body ← sqlMultiline (procedureWrapper fqn params hasReturn)
  let privilege ← privilegeLines auth moduleName (underBasePath basePath)
  return joinLines (["BEGIN".toList] ++ moduleLines qModule qBase qRoute [] ++
    handlerLines qModule qRoute qMethod "ORDS.source_type_plsql".toList body ++ privilege ++
    closingLines)

/-! ## 5. The dispatcher -/

/-- The method's name, checked; `default_` where there is none. -/
def checkedMethod (default_ : Text) (method : Option Text) : Except CallError Text :=
  let m := toUpperCase (method.getD default_)
  if ["GET".toList, "POST".toList, "PUT".toList, "DELETE".toList, "PATCH".toList].contains m then .ok m
  else .error (invalidParams ("Invalid HTTP method: ".toList ++ m))

/-- What is still to be done: nothing, or a procedure's parameters have to be looked up first. -/
inductive OrdsPlan where
  | ready (sql : Text)
  | describe (owner name : Text) (finish : List ProcParam → Except CallError Text)

/-- **`ordsGenerateSql`**, up to the one lookup it may need. -/
def ordsGenerateSql (params : OrdsParams) : Except CallError OrdsPlan := do
  let auth ← normalizeAuth params
  if params.type = some "auto-crud".toList then
    match params.sourceObject with
    | none => .error (invalidParams "Missing sourceObject for auto-crud endpoint".toList)
    | some object =>
      let schema ← validateOrdsName "schema".toList object.owner
      let objectName ← validateOrdsName "objectName".toList object.name
      let objectType := if object.kind = some "VIEW".toList then "VIEW".toList else "TABLE".toList
      let objectAlias ← validateOrdsName "alias".toList
        (some ((toLowerCase objectName).map fun c => if c = '_' then '-' else c))
      return .ready (← generateAutoCrudSql schema objectName objectType objectAlias auth)
  else if params.type = some "custom-sql".toList then
    let moduleName ← validateOrdsName "moduleName".toList params.moduleName
    let basePath ← validateOrdsName "basePath".toList params.basePath
    let routePattern ← validateOrdsName "routePattern".toList params.routePattern
    let method ← checkedMethod "GET".toList params.method
    return .ready (← generateCustomSqlEndpoint moduleName basePath routePattern method
      (params.sourceSql.getD []) auth)
  else if params.type = some "procedure".toList then
    match params.sourceObject with
    | none => .error (invalidParams "Missing sourceObject for procedure endpoint".toList)
    | some object =>
      let moduleName ← validateOrdsName "moduleName".toList params.moduleName
      let basePath ← validateOrdsName "basePath".toList params.basePath
      let routePattern ← validateOrdsName "routePattern".toList params.routePattern
      let schema ← validateOrdsName "schema".toList object.owner
      let procName ← validateOrdsName "procName".toList object.name
      let method ← checkedMethod "POST".toList params.method
      return .describe schema procName fun procParams => do
        let procParams ← procParams.mapM fun p => do
          let name ← validateOrdsName "procParam".toList (some p.name)
          return { p with name }
        generateProcedureEndpoint moduleName basePath routePattern method procName none procParams
          false auth
  else .error (invalidParams ("Unknown endpoint type: ".toList ++
    params.type.getD "undefined".toList))

end Veesker.Sidecar
