import Turnpike.Routing.Outline
import Turnpike.Web.Server

/-!
Outlines of bodies, connections and servers.
-/

namespace Turnpike

def ResponseBody.outline : ResponseBody → String
  | .buffer data => Outline.wrap "ResponseBody::Once" (Outline.maybe (data.map Outline.octets))
  | .stream _ _ | .unread => "ResponseBody::Stream"

def ConnectionConfig.outline (config : ConnectionConfig) : String :=
  Outline.record "ConnectionConfig"
    [("read_buffer_size", Outline.number config.readBufferSize),
      ("keep_alive", Outline.flag config.keepAlive)]

def ConnectionConfig.connectionOutline (config : ConnectionConfig) : String :=
  Outline.partialRecord "HttpConnection" [("config", config.outline)]

def ServerConfig.outline (config : ServerConfig) : String :=
  Outline.record "ServerConfig"
    [("request_max_size", Outline.number config.requestMaxSize),
      ("read_buffer_size", Outline.number config.readBufferSize),
      ("keep_alive", Outline.flag config.keepAlive)]

def ServerBuilder.outline (builder : ServerBuilder) : String :=
  Outline.partialRecord "ServerBuilder"
    [("router", Outline.maybe (builder.router.map Router.outline)),
      ("config", builder.config.outline)]

def Server.outline (server : Server) : String :=
  Outline.partialRecord "Server"
    [("router", server.router.outline),
      ("address", Outline.list (server.addresses.map SocketAddress.text)),
      ("config", server.config.outline)]

end Turnpike
