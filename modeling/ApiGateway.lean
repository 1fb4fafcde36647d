import ApiGateway.Core.PathDelivery
import ApiGateway.Gateway.BreakerCooldown
import ApiGateway.Gateway.CacheRefinement
import ApiGateway.Gateway.CacheFidelity
import ApiGateway.Gateway.CacheControl
import ApiGateway.Gateway.FailureStatus
import ApiGateway.Gateway.RateIdentity
import ApiGateway.Gateway.LimiterEquivalence
import ApiGateway.Gateway.PeerLimit
import ApiGateway.Gateway.Replay
import ApiGateway.Gateway.RetryReach
import ApiGateway.Gateway.WindowLaw
import ApiGateway.Gateway.RedisExpiry
import ApiGateway.Gateway.RedisLimit
import ApiGateway.Core.RouteChoice
import ApiGateway.Core.HostConstraint
import ApiGateway.Gateway.Correlation
import ApiGateway.Gateway.RequestMetric
import ApiGateway.Gateway.ConnectionGauge
import ApiGateway.Gateway.ActiveLoad
import ApiGateway.Gateway.BreakerGauge
import ApiGateway.Gateway.NoPanic
import ApiGateway.Gateway.UpstreamTarget
import ApiGateway.Gateway.RoundRobin
import ApiGateway.Gateway.PickContention
import ApiGateway.Gateway.PickFrame
import ApiGateway.Gateway.LeastConnections
import ApiGateway.Gateway.BucketKeys
import ApiGateway.Gateway.Refusal
import ApiGateway.Gateway.RetryAfter
import ApiGateway.Gateway.ForwardedChain
import ApiGateway.Gateway.ConnectionTokens
import ApiGateway.Gateway.HeaderFrame
import ApiGateway.Gateway.HealthShutdown
import ApiGateway.Gateway.HealthGate
import ApiGateway.Gateway.RouteIsolation
import ApiGateway.Gateway.Forwarding
import ApiGateway.Gateway.Outsiders
import ApiGateway.Gateway.RoundRobinShare
import ApiGateway.Gateway.Accounts
import ApiGateway.Gateway.CacheRuns
import ApiGateway.Gateway.BreakerRuns
import ApiGateway.Gateway.WaitFree
import ApiGateway.Gateway.Authenticity
import ApiGateway.Gateway.UpstreamLoad
