import InferenceGateway.Document.ReadError
import InferenceGateway.EndpointType
import InferenceGateway.Json.Printer
import InferenceGateway.Text.Utf8

/-!
# Errors of the gateway

Every way in which the gateway refuses something, by its cause: a configuration that
cannot be served, a request that is not accepted, a provider that fails. The wording of
each cause is given once, by the `message` of its type. `GatewayError.status` is the
status of the answer to a request that meets an error.
-/

namespace InferenceGateway

open Document Numeral

/-- What is wrong with a configuration. -/
inductive ConfigFault where
  | unreadableFile (path reason : String)
  | unsetVariable (name : String)
  | endpointName (name : String)
  | duplicateEndpoint (name : String)
  | emptyModelName (endpoint : String)
  | emptyProvider (endpoint : String)
  | unknownProvider (id : String)
  | missingKey (provider model : String)
  | unsupportedType (provider : String) (type : EndpointType)
  /-- An endpoint whose handler cannot be built. -/
  | registration (endpoint : String) (cause : ConfigFault)
  /-- A reason given from outside, by the constructor of a provider. -/
  | other (reason : String)
deriving DecidableEq, Repr

/-- Why a request is not accepted. -/
inductive Refusal where
  | payload (error : ReadError)
  | temperature (value : Binary)
  | topP (value : Binary)
  | noMessages
  | pageToken (token : String)
  | nameEncoding (fault : Text.Utf8.Fault)
  | repeatedParameter (name : String)
  | unreadableBody (reason : String)
  | other (reason : String)
deriving DecidableEq, Repr

/-- How a request to a provider fails before there is an answer, or with one that makes no
    sense. -/
inductive TransportFault where
  /-- No answer came. -/
  | unreachable (url : String)
  /-- The body of the answer broke off, or is not of the expected form. -/
  | undecodable
  /-- The request could not be put together. -/
  | unbuildable
  /-- The address is not one that requests can be sent to. -/
  | badAddress (url : String)
deriving DecidableEq, Repr

/-- How a provider that answers fails. -/
inductive VendorFault where
  | refused (vendor body : String)
  | fragment (vendor : String) (error : ReadError)
  /-- The stream ended without its end marker. -/
  | truncated
  /-- An event of the stream told an error. -/
  | event (vendor kind text : String)
  | other (reason : String)
deriving DecidableEq, Repr

/-- An error of the gateway. -/
inductive GatewayError where
  | config (fault : ConfigFault)
  | io (reason : String)
  | yaml (error : ReadError)
  | json (error : ReadError)
  | transport (fault : TransportFault)
  | endpointNotFound (name : String)
  | routeNotFound (name : String)
  | notImplemented (reason : String)
  | badRequest (refusal : Refusal)
  | unsupportedProvider (reason : String)
  | vendor (status : Nat) (fault : VendorFault)
deriving DecidableEq, Repr

/-! ## Messages -/

/-- What is put before the message of a configuration fault. -/
def configHeading : String := "配置错误: "

/-- The message of a configuration fault. -/
def ConfigFault.message : ConfigFault → String
  | unreadableFile path reason => "无法读取配置文件 " ++ path ++ ": " ++ reason
  | unsetVariable name => "环境变量未找到: " ++ name
  | endpointName name =>
    "端点名称无效（只允许字母、数字以及 . _ ~ -）: " ++ Text.quoted name
  | duplicateEndpoint name => "端点名称重复: " ++ name
  | emptyModelName endpoint => "端点 " ++ endpoint ++ " 的 model.name 不能为空"
  | emptyProvider endpoint => "端点 " ++ endpoint ++ " 的 model.provider 不能为空"
  | unknownProvider id => "未知的提供商: " ++ id
  | missingKey provider model => provider ++ " 模型 " ++ model ++ " 缺少 api_key"
  | unsupportedType provider type => "提供商 " ++ provider ++ " 不支持端点类别 " ++ type.id
  | registration endpoint cause =>
    "端点 " ++ endpoint ++ " 注册失败: " ++ configHeading ++ cause.message
  | other reason => reason

/-- How bytes fail to be a text. -/
def utf8Message : Text.Utf8.Fault → String
  | .broken length index =>
    "invalid utf-8 sequence of " ++ toString length ++ " bytes from index " ++ toString index
  | .cut index => "incomplete utf-8 byte sequence from index " ++ toString index

/-- The text of a number of 32 bits in a message. -/
def singleText (x : Binary) : String := x.text .single .plain "inf" "NaN"

/-- The message of a refusal. -/
def Refusal.message : Refusal → String
  | payload error => "Invalid request payload: " ++ error.message .json
  | temperature x => "temperature must be between 0.0 and 2.0, got " ++ singleText x
  | topP x => "top_p must be between 0.0 and 1.0, got " ++ singleText x
  | noMessages => "messages must not be empty"
  | pageToken token => "Invalid page token: " ++ Text.quoted token
  | nameEncoding fault => "Invalid endpoint name encoding: " ++ utf8Message fault
  | repeatedParameter name => "Invalid query string: duplicate field " ++ ticked name
  | unreadableBody reason => "Failed to read request body: " ++ reason
  | other reason => reason

/-- The message of a transport fault. -/
def TransportFault.message : TransportFault → String
  | unreachable url => "error sending request for url (" ++ url ++ ")"
  | undecodable => "error decoding response body"
  | unbuildable => "builder error"
  | badAddress url => "builder error for url (" ++ url ++ ")"

/-- The message of a provider's failure. -/
def VendorFault.message : VendorFault → String
  | refused vendor body => vendor ++ " API 错误: " ++ body
  | fragment vendor error => vendor ++ " 流式片段格式错误: " ++ error.message .json
  | truncated => "upstream stream ended before completion"
  | event vendor kind text => vendor ++ " 流错误 (" ++ kind ++ "): " ++ text
  | other reason => reason

namespace GatewayError

/-- The message of an error. -/
def message : GatewayError → String
  | config fault => configHeading ++ fault.message
  | io reason => "IO 错误: " ++ reason
  | yaml error => "YAML 解析错误: " ++ error.message .yaml
  | json error => "JSON 解析错误: " ++ error.message .json
  | transport fault => "HTTP 请求错误: " ++ fault.message
  | endpointNotFound name => "The endpoint '" ++ name
      ++ "' is not present or active on the server. Please verify the endpoint name."
  | routeNotFound name => "The route '" ++ name
      ++ "' is not present or active on the server. Please verify the route name."
  | notImplemented reason => reason
  | badRequest refusal => refusal.message
  | unsupportedProvider reason => "提供商不支持: " ++ reason
  | vendor status fault =>
    "上游 API 错误: " ++ toString status ++ " - " ++ fault.message

/-- The error of a call that a provider does not offer. -/
def unsupportedCall (provider : String) (type : EndpointType) : GatewayError :=
  .unsupportedProvider (provider ++ " 不支持 " ++ type.id)

/-- The error of a stream that ended without its end marker. -/
def truncatedStream : GatewayError := .vendor 502 .truncated

/-- Whether an error can only arise while a configuration is loaded. -/
def isConfiguration : GatewayError → Bool
  | config _ | yaml _ | io _ | unsupportedProvider _ => true
  | _ => false

/-- The status of the answer to a request that meets an error. A provider's status is
    passed on if it is one. -/
def status : GatewayError → Nat
  | endpointNotFound _ | routeNotFound _ => 404
  | notImplemented _ => 501
  | badRequest _ | json _ => 400
  | vendor status _ => if 100 ≤ status && status ≤ 999 then status else 502
  | transport _ => 502
  | config _ | io _ | yaml _ | unsupportedProvider _ => 500

/-- The body of the answer to a request that meets an error. -/
def detail (e : GatewayError) : Json := .object [("detail", .text e.message)]

end GatewayError

end InferenceGateway
