-- The request pipeline of `HttpCore` (src/http/HttpCore.h): middlewares, exact
-- routes, regex routes, static files and the 404, then the compression of the
-- response (src/http/GzipMiddleware.h). Regular expressions, the file system and
-- zlib are fields of the configuration.
import Mymuduo.HttpServer

open bytes

namespace mymuduo.http_routing

open http_core http_request http_response
open http_server (Core)

/-- A middleware or a handler, on the state that they share. -/
abbrev HttpHandler (σ : Type*) := HttpRequest → HttpResponse → σ → HttpResponse × σ

structure Route (σ : Type*) where
  method : HttpMethod
  regexMatch : Bytes → Bool
  handler : HttpHandler σ

structure Stat where
  regular : Bool
  size : Int
  deriving DecidableEq

/-- The calls of `serveFile`, on C strings, and the bytes behind a descriptor. -/
structure FileSystem where
  realpath : Bytes → Option Bytes
  openFile : Bytes → Option Nat
  fstat : Nat → Option Stat
  content : Nat → Bytes

structure HttpCore (σ : Type*) where
  middlewares_ : List (HttpHandler σ) := []
  exactRoutes_ : Bytes → Option (HttpMethod → Option (HttpHandler σ)) := fun _ => none
  routes_ : List (Route σ) := []
  staticDirs_ : StringMap := ∅
  gzipEnabled_ : Bool := false
  gzipMinSize_ : Nat := 1024
  files : FileSystem
  compress : Bytes → Bytes
  decompress : Bytes → Bytes

/-! ## Static files -/

/-- `strtol` on two characters in base 16, when it reads both of them and gives no
negative number. It skips a space and takes a sign. -/
def strtolHex (a b : UInt8) : Option Nat :=
  match hexDigitValue a, hexDigitValue b with
  | some high, some low => some (16 * high + low)
  | none, some low =>
    if isSpace a ∨ a = 43 then some low
    else if a = 45 ∧ low = 0 then some 0
    else none
  | _, none => none

/-- `%XX` becomes one byte, and everything else stays as it is. -/
def urlDecode : Bytes → Bytes
  | 37 :: a :: b :: rest =>
    match strtolHex a b with
    | some value => UInt8.ofNat value :: urlDecode rest
    | none => 37 :: urlDecode (a :: b :: rest)
  | c :: rest => c :: urlDecode rest
  | [] => []

/-- The bytes up to the first zero, as `c_str()` hands them to the system. -/
def cString (s : Bytes) : Bytes := s.takeWhile (· ≠ 0)

/-- The type that an extension gives, wherever it stands in the name. -/
def contentTypeOf (filename : Bytes) : Bytes :=
  if (find (text ".html") filename).isSome then text "text/html; charset=utf-8"
  else if (find (text ".css") filename).isSome then text "text/css"
  else if (find (text ".js") filename).isSome then text "application/javascript"
  else if (find (text ".json") filename).isSome then text "application/json"
  else if (find (text ".png") filename).isSome then text "image/png"
  else if (find (text ".jpg") filename).isSome ∨ (find (text ".jpeg") filename).isSome then
    text "image/jpeg"
  else text "application/octet-stream"

/-- The checks on the decoded name, before the file system is asked. -/
def badName (decodedFilename : Bytes) : Bool :=
  decodedFilename = [] || (find (text "..") decodedFilename).isSome ||
    decodedFilename.head? = some 47 || decodedFilename.head? = some 126 ||
    (find (text "\\") decodedFilename).isSome

/-- What `serveFile` does with a descriptor: it opens none, it opens one and closes it
again, or it opens one and leaves it in the response. -/
inductive FileUse
  | untouched
  | closed (fd : Nat)
  | served (fd : Nat)
  deriving DecidableEq

/-- The body of `serveFile`: the response, and what became of the descriptor. -/
def serveFileUse (files : FileSystem) (response : HttpResponse) (dir filename : Bytes) :
    HttpResponse × FileUse :=
  let decodedFilename := urlDecode filename
  if badName decodedFilename then (.badRequest (text "Invalid path"), .untouched)
  else
    let filepath := cString (dir ++ text "/" ++ decodedFilename)
    match files.realpath filepath, files.realpath (cString dir) with
    | some resolvedPath, some resolvedDir =>
      if find resolvedDir resolvedPath ≠ some 0 then (.badRequest (text "Invalid path"), .untouched)
      else
        match files.openFile filepath with
        | none => (.notFound (text "Not Found"), .untouched)
        | some fd =>
          match files.fstat fd with
          | none => (.notFound (text "Not Found"), .closed fd)
          | some st =>
            if st.regular = false then (.notFound (text "Not Found"), .closed fd)
            else if st.size ≤ 0 ∨ kMaxBodySize < st.size.toNat then
              (.serverError (text "File too large"), .closed fd)
            else
              ((response.setContentType (contentTypeOf filename)).setFileBody fd st.size.toNat,
                .served fd)
    | _, _ => (.notFound (text "Not Found"), .untouched)

def serveFile (files : FileSystem) (response : HttpResponse) (dir filename : Bytes) :
    HttpResponse :=
  (serveFileUse files response dir filename).1

/-! ## The pipeline -/

section Pipeline

variable {σ : Type*}

/-- The middlewares in order. `true` means that one of them ended the pipeline. -/
def runMiddlewares (request : HttpRequest) :
    List (HttpHandler σ) → HttpResponse → σ → Bool × HttpResponse × σ
  | [], response, app => (false, response, app)
  | middleware :: middlewares, response, app =>
    let (response, app) := middleware request response app
    if 400 ≤ response.statusCode.toNat then (true, response, app)
    else runMiddlewares request middlewares response app

/-- The longest prefix of the path, and the first one of its length. -/
def bestStaticDir (path : Bytes) (dirs : List (Bytes × Bytes)) : Option (Bytes × Bytes) :=
  dirs.foldl (fun best kv =>
    if find kv.1 path = some 0 then
      match best with
      | none => some kv
      | some b => if b.1.length < kv.1.length then some kv else best
    else best) none

/-- The rest of the path behind the slashes that follow the prefix. -/
def subPath (path : Bytes) (urlPrefix : Bytes) : Bytes :=
  let sub := (path.drop urlPrefix.length).dropWhile (· = 47)
  if sub = [] then text "index.html" else sub

namespace HttpCore

variable (core : HttpCore σ)

/-- The exact route, or the first regex route that matches. -/
def findHandler (request : HttpRequest) : Option (HttpHandler σ) :=
  match (core.exactRoutes_ request.path).bind (· request.method) with
  | some handler => some handler
  | none =>
    (core.routes_.find? (fun route =>
      route.method = request.method && route.regexMatch request.path)).map Route.handler

/-- The body of `handleRequest`, with what became of the descriptor of `serveFile`. -/
def handleRequestUse (request : HttpRequest) (response : HttpResponse) (app : σ) :
    (HttpResponse × σ) × FileUse :=
  match runMiddlewares request core.middlewares_ response app with
  | (true, response, app) => ((response, app), .untouched)
  | (false, response, app) =>
    match core.findHandler request with
    | some handler => (handler request response app, .untouched)
    | none =>
      match bestStaticDir request.path (core.staticDirs_.entries.map (fun e => (e.1, e.2))) with
      | some (urlPrefix, dir) =>
        let (response, use) :=
          serveFileUse core.files response dir (subPath request.path urlPrefix)
        ((response, app), use)
      | none => ((.notFound (text "Not Found: " ++ request.path), app), .untouched)

def handleRequest (request : HttpRequest) (response : HttpResponse) (app : σ) : HttpResponse × σ :=
  (core.handleRequestUse request response app).1

end HttpCore

def shouldCompress (contentType : Bytes) : Bool :=
  if contentType = [] then false
  else
    find (text "text/") contentType = some 0 ||
      (find (text "application/json") contentType).isSome ||
      (find (text "application/javascript") contentType).isSome ||
      (find (text "application/xml") contentType).isSome

namespace HttpCore

variable (core : HttpCore σ)

def postProcessResponse (request : HttpRequest) (response : HttpResponse) : HttpResponse :=
  if core.gzipEnabled_ = false ∨ response.body.length < core.gzipMinSize_ then response
  else if find (text "gzip") (request.getHeader (text "accept-encoding")) = none then response
  else if shouldCompress ((response.headers.lookup (text "Content-Type")).getD []) = false then
    response
  else
    let compressed := core.compress response.body
    if compressed ≠ [] ∧ compressed.length < response.body.length then
      (({ response with body := compressed }.setContentLength compressed.length).setHeader
        (text "Content-Encoding") (text "gzip")).setHeader (text "Vary") (text "Accept-Encoding")
    else response

/-- The core as the servers use it: both calls, on a fresh response. -/
def toCore : Core σ where
  handle app request :=
    let result := core.handleRequest request {} app
    (core.postProcessResponse request result.1, result.2)
  decompress := core.decompress

end HttpCore

end Pipeline

end mymuduo.http_routing
